import HttpClientGen.FieldAccess
import HttpClientGen.Proofs.Discrimination
import HttpClientGen.Proofs.Lookup
import Mathlib.Data.List.Lex
import Mathlib.Data.List.Perm.Subperm

/-!
# Which fields are leaves

The fields of a request that can be sent in a query are those at the end of a way: a path of fields
through single messages, none of which is met twice. The walk finds each way once, in the order of
the positions of the fields. Ways end because there are only so many messages, and so does the walk,
whatever cycles the messages form.
-/

namespace HttpClientGen

/-- The field can be sent in a query: it is no map, and holds no message or a well-known one. -/
def Field.Sendable (field : Field) : Prop :=
  field.cardinality ≠ .map ∧ ∀ name, field.kind = .message name → isWellKnown name = true

theorem Field.isQueryLeaf_iff {field : Field} : field.isQueryLeaf = true ↔ field.Sendable := by
  rw [isQueryLeaf, Sendable, Bool.and_eq_true, bne_iff_ne, Option.all_eq_true]
  simp only [FieldKind.message?_eq_some_iff]

/-- A field of a message, with its position among the fields of that message. -/
structure FieldStep where
  message : Message
  position : Nat
  field : Field
  deriving DecidableEq, Repr

/-- The fields of a message, each with its position. -/
def Message.steps (message : Message) : List FieldStep :=
  message.fields.mapIdx fun position field => ⟨message, position, field⟩

theorem Message.mem_steps_iff {message : Message} {step : FieldStep} :
    step ∈ message.steps ↔
      step.message = message ∧ message.fields[step.position]? = some step.field := by
  obtain ⟨holder, position, field⟩ := step
  rw [steps, List.mem_mapIdx]
  constructor
  · rintro ⟨i, inRange, same⟩
    obtain ⟨rfl, rfl, rfl⟩ := FieldStep.mk.inj same
    exact ⟨rfl, List.getElem?_eq_getElem inRange⟩
  · rintro ⟨rfl, held⟩
    obtain ⟨inRange, same⟩ := List.getElem?_eq_some_iff.mp held
    exact ⟨position, inRange, congrArg (FieldStep.mk _ position) same⟩

theorem Message.map_field_steps (message : Message) :
    message.steps.map (·.field) = message.fields :=
  List.ext_getElem (by simp [steps]) (by simp [steps])

theorem Message.pairwise_steps (message : Message) :
    message.steps.Pairwise fun step later => step.position < later.position := by
  refine List.pairwise_iff_getElem.mpr fun i j _ _ before => ?_
  simpa [steps] using before

/-- What a way of steps accesses. -/
def FieldAccess.ofSteps (way : List FieldStep) : FieldAccess :=
  ⟨way.map (·.field)⟩

namespace Schema

/-- The field holds one message, and the schema has it. -/
def Holds (schema : Schema) (field : Field) (inner : Message) : Prop :=
  field.cardinality = .singular ∧
    ∃ name, field.kind = .message name ∧ schema.message? name = some inner

/-- The field holds one message that the schema has and that is not well known. -/
def Enters (schema : Schema) (field : Field) (inner : Message) : Prop :=
  field.cardinality = .singular ∧
    ∃ name, field.kind = .message name ∧ isWellKnown name = false ∧
      schema.message? name = some inner

/-- The steps lead from a message through single messages to a field that can be sent in a query. -/
structure IsWay (schema : Schema) (message : Message) (way : List FieldStep) : Prop where
  starts : way.head?.map (·.message) = some message
  held : ∀ step ∈ way, step.message.fields[step.position]? = some step.field
  enters : way.IsChain fun step next => schema.Enters step.field next.message
  ends : ∀ step, way.getLast? = some step → step.field.Sendable

/-- A way that meets no message twice. -/
structure IsQueryWay (schema : Schema) (message : Message) (way : List FieldStep) : Prop
    extends schema.IsWay message way where
  distinct : (way.map (·.message)).Nodup

variable {schema : Schema} {message inner : Message} {field : Field}

theorem nested?_eq_some_iff : schema.nested? field = some inner ↔ schema.Holds field inner := by
  rw [nested?, Holds]
  by_cases single : field.cardinality = .singular
  · simp [single, Option.bind_eq_some_iff, FieldKind.message?_eq_some_iff]
  · simp [single]

/-- The walk enters what is no leaf itself. -/
theorem enters_iff :
    schema.Enters field inner ↔ ¬field.Sendable ∧ schema.nested? field = some inner := by
  rw [nested?_eq_some_iff]
  constructor
  · rintro ⟨single, name, kind, ordinary, found⟩
    refine ⟨fun sendable => ?_, single, name, kind, found⟩
    exact Bool.false_ne_true (ordinary.symm.trans (sendable.2 name kind))
  · rintro ⟨inside, single, name, kind, found⟩
    refine ⟨single, name, kind, ?_, found⟩
    rw [← Bool.not_eq_true]
    intro known
    refine inside ⟨by simp [single], fun other same => ?_⟩
    obtain rfl := FieldKind.message.inj (kind.symm.trans same)
    exact known

/-- The ways to the leaves of a message, found in the same walk as the leaves themselves. -/
def leafWays (schema : Schema) (onPath : List String) (message : Message) : List (List FieldStep) :=
  message.steps.flatMap fun step =>
    if step.field.isQueryLeaf then [[step]]
    else
      match _found : schema.nested? step.field with
      | none => []
      | some inner =>
        if _new : inner.fullName ∈ onPath then []
        else (schema.leafWays (inner.fullName :: onPath) inner).map (step :: ·)
termination_by (schema.unmet onPath).length
decreasing_by exact unmet_cons_lt (message?_of_nested? _found) _new

def waysVia (schema : Schema) (onPath : List String) (step : FieldStep) : List (List FieldStep) :=
  if step.field.isQueryLeaf then [[step]]
  else
    match schema.nested? step.field with
    | none => []
    | some inner =>
      if inner.fullName ∈ onPath then []
      else (schema.leafWays (inner.fullName :: onPath) inner).map (step :: ·)

theorem leafWays_eq_flatMap_waysVia (onPath : List String) (message : Message) :
    schema.leafWays onPath message = message.steps.flatMap (schema.waysVia onPath) := by
  rw [leafWays]
  refine List.flatMap_congr fun step _ => ?_
  rw [waysVia]
  cases nested : schema.nested? step.field <;> simp

/-- A way ends at once at a field that can be sent, or it goes on in the message that the field
holds. -/
theorem mem_waysVia_iff {onPath : List String} {step : FieldStep} {way : List FieldStep} :
    way ∈ schema.waysVia onPath step ↔
      (step.field.Sendable ∧ way = [step]) ∨
        ∃ inner rest, schema.Enters step.field inner ∧ inner.fullName ∉ onPath ∧
          rest ∈ schema.leafWays (inner.fullName :: onPath) inner ∧ way = step :: rest := by
  rw [waysVia]
  by_cases sendable : step.field.Sendable
  · rw [if_pos (Field.isQueryLeaf_iff.mpr sendable), List.mem_singleton]
    simp [enters_iff, sendable]
  · rw [if_neg (mt Field.isQueryLeaf_iff.mp sendable)]
    cases nested : schema.nested? step.field with
    | none => simp [enters_iff, sendable, nested]
    | some inner =>
      by_cases met : inner.fullName ∈ onPath
      · simp [enters_iff, sendable, nested, met]
      · simp [enters_iff, sendable, nested, met, eq_comm]

theorem exists_cons_of_mem_waysVia {onPath : List String} {step : FieldStep} {way : List FieldStep}
    (listed : way ∈ schema.waysVia onPath step) : ∃ rest, way = step :: rest := by
  rcases mem_waysVia_iff.mp listed with ⟨-, rfl⟩ | ⟨inner, rest, -, -, -, rfl⟩
  · exact ⟨[], rfl⟩
  · exact ⟨rest, rfl⟩

theorem cons_mem_leafWays_iff {onPath : List String} {step : FieldStep} {rest : List FieldStep} :
    step :: rest ∈ schema.leafWays onPath message ↔
      step ∈ message.steps ∧
        ((step.field.Sendable ∧ rest = []) ∨
          ∃ inner, schema.Enters step.field inner ∧ inner.fullName ∉ onPath ∧
            rest ∈ schema.leafWays (inner.fullName :: onPath) inner) := by
  rw [leafWays_eq_flatMap_waysVia, List.mem_flatMap]
  constructor
  · rintro ⟨first, isStep, listed⟩
    obtain ⟨others, same⟩ := exists_cons_of_mem_waysVia listed
    obtain ⟨rfl, rfl⟩ := List.cons.inj same
    simpa [isStep] using mem_waysVia_iff.mp listed
  · rintro ⟨isStep, goesOn⟩
    exact ⟨step, isStep, mem_waysVia_iff.mpr (by simpa using goesOn)⟩

theorem not_isWay_nil : ¬schema.IsWay message [] :=
  fun leads => nomatch leads.starts

theorem IsWay.exists_cons {way : List FieldStep} (leads : schema.IsWay message way) :
    ∃ step rest, way = step :: rest ∧ step.message = message := by
  cases way with
  | nil => exact absurd leads not_isWay_nil
  | cons step rest => exact ⟨step, rest, rfl, Option.some.inj leads.starts⟩

theorem isWay_cons_iff {step : FieldStep} {rest : List FieldStep} :
    schema.IsWay message (step :: rest) ↔
      step ∈ message.steps ∧
        ((step.field.Sendable ∧ rest = []) ∨
          ∃ inner, schema.Enters step.field inner ∧ schema.IsWay inner rest) := by
  rw [Message.mem_steps_iff]
  constructor
  · intro leads
    have here : step.message = message := Option.some.inj leads.starts
    obtain ⟨held, heldLater⟩ := List.forall_mem_cons.mp leads.held
    refine ⟨⟨here, here ▸ held⟩, ?_⟩
    cases rest with
    | nil => exact Or.inl ⟨leads.ends step rfl, rfl⟩
    | cons next others =>
      obtain ⟨enters, entersLater⟩ := List.isChain_cons_cons.mp leads.enters
      exact Or.inr ⟨next.message, enters, rfl, heldLater, entersLater, leads.ends⟩
  · rintro ⟨⟨rfl, held⟩, ⟨sendable, rfl⟩ | ⟨inner, enters, leads⟩⟩
    · exact ⟨rfl, by simpa using held, .singleton _, by simpa using sendable⟩
    · obtain ⟨next, others, rfl, rfl⟩ := leads.exists_cons
      exact ⟨rfl, List.forall_mem_cons.mpr ⟨held, leads.held⟩,
        List.isChain_cons_cons.mpr ⟨enters, leads.enters⟩, leads.ends⟩

/-- The walk finds the ways on which no name is met twice, nor one of those around the message. -/
theorem mem_leafWays_iff_isWay {onPath : List String} (distinct : onPath.Nodup)
    {way : List FieldStep} :
    way ∈ schema.leafWays onPath message ↔
      schema.IsWay message way ∧
        (way.tail.map (·.message.fullName) ++ onPath).Nodup := by
  induction way generalizing onPath message with
  | nil =>
    refine iff_of_false (fun listed => ?_) fun both => not_isWay_nil both.1
    rw [leafWays_eq_flatMap_waysVia] at listed
    obtain ⟨step, -, via⟩ := List.mem_flatMap.mp listed
    obtain ⟨_, ⟨⟩⟩ := exists_cons_of_mem_waysVia via
  | cons step rest ih =>
    rw [cons_mem_leafWays_iff, isWay_cons_iff, and_assoc, List.tail_cons]
    refine and_congr_right fun _ => ?_
    rw [or_and_right]
    refine or_congr ?_ ?_
    · refine (and_iff_left_of_imp ?_).symm
      rintro ⟨-, rfl⟩
      exact distinct
    · constructor
      · rintro ⟨inner, enters, new, listed⟩
        obtain ⟨leads, once⟩ := (ih (List.nodup_cons.mpr ⟨new, distinct⟩)).mp listed
        refine ⟨⟨inner, enters, leads⟩, ?_⟩
        obtain ⟨next, others, rfl, rfl⟩ := leads.exists_cons
        exact List.perm_middle.nodup_iff.mp once
      · rintro ⟨⟨inner, enters, leads⟩, once⟩
        obtain ⟨next, others, rfl, rfl⟩ := leads.exists_cons
        have again := List.perm_middle.nodup_iff.mpr once
        have new : next.message.fullName ∉ onPath :=
          (List.nodup_cons.mp (List.nodup_append.mp again).2.1).1
        exact ⟨next.message, enters, new,
          (ih (List.nodup_cons.mpr ⟨new, distinct⟩)).mpr ⟨leads, again⟩⟩

/-- Along each way stand the fields of a leaf, in the same order of leaves. -/
theorem map_field_leafWays (onPath : List String) (message : Message) :
    (schema.leafWays onPath message).map (·.map FieldStep.field) =
      schema.leafPaths onPath message := by
  fun_induction leafWays schema onPath message with
  | case1 onPath message ih =>
    rw [leafPaths, ← message.map_field_steps, List.flatMap_map, List.map_flatMap]
    refine List.flatMap_congr fun step _ => ?_
    by_cases leaf : step.field.isQueryLeaf
    · simp [leaf]
    · cases nested : schema.nested? step.field with
      | none => simp [leaf]
      | some inner =>
        by_cases met : inner.fullName ∈ onPath
        · simp [leaf, met]
        · simp [leaf, met, ← ih step inner nested met]

/-- The ways come in the lexicographic order of the positions along them. -/
theorem pairwise_position_leafWays (onPath : List String) (message : Message) :
    ((schema.leafWays onPath message).map (·.map FieldStep.position)).Pairwise (· < ·) := by
  fun_induction leafWays schema onPath message with
  | case1 onPath message ih =>
    rw [← leafWays, leafWays_eq_flatMap_waysVia, List.map_flatMap, List.pairwise_flatMap]
    constructor
    · intro step _
      rw [waysVia]
      split
      · exact List.pairwise_singleton _ _
      · split
        · exact .nil
        · next inner nested =>
          split
          · exact .nil
          · next new =>
            have later := List.pairwise_map.mp (ih step inner nested new)
            rw [List.map_map, List.pairwise_map]
            exact later.imp fun less => List.cons_lt_cons_iff.mpr (Or.inr ⟨rfl, less⟩)
    · refine message.pairwise_steps.imp fun {step later} before => ?_
      rintro _ first _ second
      obtain ⟨way, viaStep, rfl⟩ := List.mem_map.mp first
      obtain ⟨other, viaLater, rfl⟩ := List.mem_map.mp second
      obtain ⟨rest, rfl⟩ := exists_cons_of_mem_waysVia viaStep
      obtain ⟨others, rfl⟩ := exists_cons_of_mem_waysVia viaLater
      exact List.cons_lt_cons_iff.mpr (Or.inl before)

/-- All messages on a way are those that the schema has under their names, if the first one is. -/
theorem IsWay.known {way : List FieldStep} (leads : schema.IsWay message way)
    (known : schema.message? message.fullName = some message) :
    ∀ step ∈ way, schema.message? step.message.fullName = some step.message := by
  induction way generalizing message with
  | nil => exact List.forall_mem_nil _
  | cons step rest ih =>
    obtain ⟨isStep, goesOn⟩ := isWay_cons_iff.mp leads
    obtain ⟨rfl, -⟩ := Message.mem_steps_iff.mp isStep
    refine List.forall_mem_cons.mpr ⟨known, ?_⟩
    rcases goesOn with ⟨-, rfl⟩ | ⟨inner, enters, leadsOn⟩
    · exact List.forall_mem_nil _
    · obtain ⟨-, name, -, -, found⟩ := enters
      exact ih leadsOn (fullName_of_message? found ▸ found)

theorem mem_leafWays_iff_isQueryWay (known : schema.message? message.fullName = some message)
    {way : List FieldStep} :
    way ∈ schema.leafWays [message.fullName] message ↔ schema.IsQueryWay message way := by
  have once (leads : schema.IsWay message way) :
      (way.tail.map (·.message.fullName) ++ [message.fullName]).Nodup ↔
        (way.map (·.message)).Nodup := by
    have allKnown : ∀ other ∈ way.map (·.message),
        schema.message? other.fullName = some other :=
      List.forall_mem_map.mpr (leads.known known)
    rw [← nodup_map_iff_of_found schema.message? allKnown, List.map_map]
    obtain ⟨step, rest, rfl, rfl⟩ := leads.exists_cons
    exact (List.perm_append_singleton _ _).nodup_iff
  rw [mem_leafWays_iff_isWay (List.nodup_singleton _)]
  constructor
  · rintro ⟨leads, distinct⟩
    exact ⟨leads, (once leads).mp distinct⟩
  · intro isWay
    exact ⟨isWay.toIsWay, (once isWay.toIsWay).mpr isWay.distinct⟩

/-- A way is no longer than the list of all messages. -/
theorem IsQueryWay.length_le {way : List FieldStep} (isWay : schema.IsQueryWay message way)
    (known : schema.message? message.fullName = some message) :
    way.length ≤ (schema.files.flatMap (·.messages)).length := by
  have within : way.map (·.message) ⊆ schema.files.flatMap (·.messages) := by
    refine List.forall_mem_map.mpr fun step onWay => ?_
    exact List.mem_flatMap.mpr (mem_files_of_message? (isWay.toIsWay.known known step onWay))
  simpa using (List.subperm_of_subset isWay.distinct within).length_le

/-- The leaves of a message are the ends of the ways that begin there. Each way is found once, and
they come in the lexicographic order of the positions of their fields. No way is longer than the
number of messages, so the walk ends. -/
theorem queryLeaves_eq_ways (schema : Schema) (message : Message)
    (known : schema.message? message.fullName = some message) :
    ∃ ways : List (List FieldStep),
      schema.queryLeaves message = ways.map FieldAccess.ofSteps ∧
      (∀ way, way ∈ ways ↔ schema.IsQueryWay message way) ∧
      (ways.map (·.map FieldStep.position)).Pairwise (· < ·) ∧
      ∀ way ∈ ways, way.length ≤ (schema.files.flatMap (·.messages)).length := by
  refine ⟨schema.leafWays [message.fullName] message, ?_,
    fun way => mem_leafWays_iff_isQueryWay known, pairwise_position_leafWays _ _, ?_⟩
  · rw [queryLeaves, ← map_field_leafWays, List.map_map]
    rfl
  · intro way listed
    exact ((mem_leafWays_iff_isQueryWay known).mp listed).length_le known

def folderOwner : Field where
  name := "owner"
  kind := .message "drive.User"

def userMails : Field where
  name := "mails"
  kind := .scalar .string
  cardinality := .repeated

/-- Folders lie in folders and belong to users. -/
def driveFolder : Message where
  declared := ⟨"drive", "Folder"⟩
  fields := [{ name := "title", kind := .scalar .string },
    { name := "parent", kind := .message "drive.Folder" },
    folderOwner,
    { name := "labels", kind := .scalar .string, cardinality := .map },
    { name := "edited", kind := .message "google.protobuf.Timestamp", cardinality := .repeated }]

/-- Users have a folder of their own. -/
def driveUser : Message where
  declared := ⟨"drive", "User"⟩
  fields := [{ name := "home", kind := .message "drive.Folder" }, userMails]

def driveSchema : Schema :=
  .ofFiles [{ name := "drive.proto", package := "drive", messages := [driveFolder, driveUser] }]

theorem queryLeaves_driveFolder :
    driveSchema.message? driveFolder.fullName = some driveFolder ∧
      ∃ ways : List (List FieldStep),
        driveSchema.queryLeaves driveFolder = ways.map FieldAccess.ofSteps ∧
        (∀ way, way ∈ ways ↔ driveSchema.IsQueryWay driveFolder way) ∧
        (ways.map (·.map FieldStep.position)).Pairwise (· < ·) ∧
        ∀ way ∈ ways, way.length ≤ (driveSchema.files.flatMap (·.messages)).length :=
  ⟨rfl, queryLeaves_eq_ways driveSchema driveFolder rfl⟩

end Schema

end HttpClientGen
