import HttpClientGen.Proofs.Answered

/-!
# Demands

What an entry of the queue asks for is a list of demands: the records that it needs, each with the
messages that are needed once the record is written. Demands whose names are free are granted, and
the others come too late, be it for the same message or for another one. Writing an entry amounts to
granting its demands.
-/

namespace HttpClientGen

namespace Viewpoint

variable {view : Viewpoint} {session : Session}

/-!
## Shapes without a session

Where the answers of a session are right, the shape of a message for a direction depends on the
schema, the package and the options alone.
-/

/-- The message behind a field, if it needs separate shapes and is not well known. -/
def separateTarget? (view : Viewpoint) (field : Field) : Option String :=
  field.kind.message?.filter fun fullName =>
    !isWellKnown fullName && view.schema.discriminates fullName

def shapeProperty (view : Viewpoint) (options : Options) (direction : Direction)
    (field : Field) : Property where
  doc := field.doc
  name := field.jsonName
  optional := field.mayBeAbsent
  type := match view.separateTarget? field with
    | some fullName => field.cardinality.wrap (.named (view.variantName options direction fullName))
    | none => view.fieldType field

def shape (view : Viewpoint) (options : Options) (direction : Direction) (message : Message) :
    RecordType where
  doc := .of message.comments []
  name := view.variantName options direction message.fullName
  properties := (message.fieldsIn direction).map (view.shapeProperty options direction)

/-- The messages whose shapes for a direction the shape of a message refers to. -/
def shapeTargets (view : Viewpoint) (direction : Direction) (message : Message) : List String :=
  (message.fieldsIn direction).filterMap view.separateTarget?

theorem separateTarget?_eq_some_iff {field : Field} {fullName : String} :
    view.separateTarget? field = some fullName ↔ field.kind = .message fullName ∧
      isWellKnown fullName = false ∧ view.schema.discriminates fullName = true :=
  Field.target?_eq_some_iff

/-! ## What an entry asks for -/

def defaultDemand (view : Viewpoint) (message : Message) : Demand :=
  ⟨message.fullName, view.defaultRecord message, []⟩

def directedDemand (view : Viewpoint) (options : Options) (usage : Usage) (message : Message)
    (direction : Direction) : Demand where
  owner := message.fullName
  record := view.shape options direction message
  pending := (view.shapeTargets direction message).map (usage.passOn direction)

/-- The demand for the shape of a message for a direction, if it is used in that direction. -/
def shapeDemand (view : Viewpoint) (options : Options) (usage : Usage) (message : Message)
    (direction : Direction) : List Demand :=
  if usage.isIn direction then [view.directedDemand options usage message direction] else []

/-- What an entry of the queue demands: shapes for its directions if the message needs separate
shapes, and the default shape if not. -/
def demands (view : Viewpoint) (options : Options) (usage : Usage) : List Demand :=
  match view.schema.message? usage.message with
  | none => []
  | some message =>
    if isWellKnown usage.message then []
    else if (usage.inRequest || usage.inResponse) && view.schema.discriminates usage.message then
      view.shapeDemand options usage message .request ++
        view.shapeDemand options usage message .response
    else [view.defaultDemand message]

theorem mem_shapeDemand_iff {options : Options} {usage : Usage} {message : Message}
    {direction : Direction} {demand : Demand} :
    demand ∈ view.shapeDemand options usage message direction ↔
      usage.isIn direction = true ∧
        demand = view.directedDemand options usage message direction := by
  rw [shapeDemand]
  split <;> simp_all

/-- Every demand is for one shape of the message that is asked for. A shape for a direction is
demanded only if the message is used in that direction and needs separate shapes. -/
theorem cases_of_mem_demands {options : Options} {usage : Usage} {demand : Demand}
    (demanded : demand ∈ view.demands options usage) :
    ∃ message, view.schema.message? usage.message = some message ∧
      isWellKnown usage.message = false ∧
      (demand = view.defaultDemand message ∨
        ∃ direction, usage.isIn direction = true ∧
          view.schema.discriminates usage.message = true ∧
          demand = view.directedDemand options usage message direction) := by
  rw [demands] at demanded
  split at demanded
  · cases demanded
  · next message found =>
    refine ⟨message, found, ?_⟩
    split at demanded
    · cases demanded
    · next ordinary =>
      refine ⟨by simpa using ordinary, ?_⟩
      split at demanded
      · next apart =>
        have separate := (Bool.and_eq_true_iff.mp apart).2
        rcases List.mem_append.mp demanded with request | response
        · obtain ⟨used, rfl⟩ := mem_shapeDemand_iff.mp request
          exact Or.inr ⟨.request, used, separate, rfl⟩
        · obtain ⟨used, rfl⟩ := mem_shapeDemand_iff.mp response
          exact Or.inr ⟨.response, used, separate, rfl⟩
      · exact Or.inl (List.mem_singleton.mp demanded)

/-- Only the shape for a direction asks for more: messages that need separate shapes themselves and
that fields of the shape hold. They are passed its direction. -/
theorem exists_field_of_pending {options : Options} {usage other : Usage} {demand : Demand}
    (demanded : demand ∈ view.demands options usage) (pending : other ∈ demand.pending) :
    ∃ message, view.schema.message? usage.message = some message ∧
      isWellKnown usage.message = false ∧ view.schema.discriminates usage.message = true ∧
      ∃ direction, usage.isIn direction = true ∧
        ∃ field ∈ message.fieldsIn direction,
          view.separateTarget? field = some other.message ∧
          other = usage.passOn direction other.message := by
  obtain ⟨message, found, ordinary, rfl | ⟨direction, used, apart, rfl⟩⟩ :=
    cases_of_mem_demands demanded
  · cases pending
  · obtain ⟨target, aimed, rfl⟩ := List.mem_map.mp pending
    obtain ⟨field, held, separate⟩ := List.mem_filterMap.mp aimed
    exact ⟨message, found, ordinary, apart, direction, used, field, held, separate, rfl⟩

/-- A message that is asked for without a direction demands its default shape. -/
theorem defaultDemand_mem_demands {message : Message} (options : Options)
    (found : view.schema.message? message.fullName = some message)
    (ordinary : isWellKnown message.fullName = false) :
    view.defaultDemand message ∈ view.demands options ⟨message.fullName, false, false⟩ := by
  simp [demands, found, ordinary]

/-- A message that needs separate shapes demands the one for every direction it is used in. -/
theorem directedDemand_mem_demands {usage : Usage} {message : Message} (options : Options)
    (found : view.schema.message? usage.message = some message)
    (ordinary : isWellKnown usage.message = false)
    (separate : view.schema.discriminates usage.message = true) {direction : Direction}
    (used : usage.isIn direction = true) :
    view.directedDemand options usage message direction ∈ view.demands options usage := by
  have someWay : (usage.inRequest || usage.inResponse) = true := by
    cases direction <;> simp_all [Usage.isIn]
  simp only [demands, found, ordinary, separate, someWay, Bool.false_eq_true, if_false,
    Bool.and_self, if_true, List.mem_append, mem_shapeDemand_iff]
  cases direction with
  | request => exact Or.inl ⟨used, rfl⟩
  | response => exact Or.inr ⟨used, rfl⟩

/-- An entry gives the records of the granted demands, passes their messages on, and keeps to
claiming their names. -/
structure Gives (view : Viewpoint) (session : Session) (demands : List Demand)
    (written : Written) : Prop where
  records : written.records =
    (session.registry.grant view.package demands).1.map (·.record)
  pending : written.pending =
    (session.registry.grant view.package demands).1.flatMap (·.pending)
  registry : written.session.registry = (session.registry.grant view.package demands).2
  keeps : session.Keeps view.schema written.session

/-- The demands by right answers are those that the schema determines. -/
theorem demandsBy_discriminates (view : Viewpoint) (options : Options) (usage : Usage) :
    view.demandsBy view.schema.discriminates options usage = view.demands options usage := by
  rw [demandsBy, demands]
  cases found : view.schema.message? usage.message with
  | none => rfl
  | some message =>
    have named := Schema.fullName_of_message? found
    have directed (direction : Direction) :
        view.demandBy view.schema.discriminates options usage message direction =
          view.directedDemand options usage message direction := rfl
    simp only [Usage.shapes, named]
    split
    · rfl
    · split
      · cases request : usage.isIn .request <;> cases response : usage.isIn .response <;>
          simp [shapeDemand, request, response, directed]
      · rfl

/-- An entry of the queue gives what it demands. -/
theorem write_gives (sound : session.memo.Sound view.schema) (usage : Usage) :
    view.Gives session (view.demands session.options usage) (view.write session usage) := by
  have performs := view.write_performs session usage
  rw [sound.answer_eq, demandsBy_discriminates] at performs
  exact ⟨performs.records, performs.pending, performs.registry, performs.follows.keeps sound⟩

end Viewpoint

end HttpClientGen
