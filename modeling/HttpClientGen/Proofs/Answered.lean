import HttpClientGen.Proofs.Answers
import HttpClientGen.Proofs.Claims

/-!
# Shapes by the answers of a session

Whatever a session answers, it answers throughout a run. Hence the shapes that a run writes are
determined by these answers, the options and the schema, also where the answers are not the ones of a
walk over this schema. What an entry of the queue asks for is a list of shapes of one message; the
shapes whose names are free are written, and each brings in the messages that it refers to.
-/

namespace HttpClientGen

/-- The message that a field holds, if it is not well known and is said to need separate shapes. -/
def Field.target? (field : Field) (separate : String → Bool) : Option String :=
  field.kind.message?.filter fun fullName => !isWellKnown fullName && separate fullName

theorem Field.target?_eq_some_iff {field : Field} {separate : String → Bool} {fullName : String} :
    field.target? separate = some fullName ↔ field.kind = .message fullName ∧
      isWellKnown fullName = false ∧ separate fullName = true := by
  simp [target?, Option.filter_eq_some_iff, FieldKind.message?_eq_some_iff]

/-- The shapes of a message that an entry of the queue asks for: the default shape, or those for its
directions if the message needs separate ones. -/
def Usage.shapes (usage : Usage) (message : Message) (separate : Bool) :
    List (Option Direction) :=
  if isWellKnown message.fullName then []
  else if (usage.inRequest || usage.inResponse) && separate then
    ([.request, .response].filter usage.isIn).map some
  else [none]

namespace Registry

variable {registry : Registry} {unit : String}

/-- A granted demand is for a name that was free, and its message is the owner from then on. -/
theorem owner?_of_granted {demands : List Demand} {demand : Demand}
    (granted : demand ∈ (registry.grant unit demands).1) :
    registry.owner? unit demand.record.name = none ∧
      (registry.grant unit demands).2.owner? unit demand.record.name = some demand.owner := by
  have inTime : demand ∈ (registry.grant unit demands).1.filter
      (·.record.name = demand.record.name) := List.mem_filter.mpr ⟨granted, by simp⟩
  rw [filter_grant] at inTime
  split at inTime
  · cases inTime
  · next free =>
    have first := Option.mem_toList.mp inTime
    have unowned : registry.owner? unit demand.record.name = none := by simpa using free
    refine ⟨unowned, ?_⟩
    rw [owner?_grant, unowned, Option.none_or, if_pos rfl, first]
    rfl

end Registry

namespace Viewpoint

variable {view : Viewpoint} {session : Session}

def propertyBy (view : Viewpoint) (separate : String → Bool) (options : Options)
    (direction : Direction) (field : Field) : Property where
  doc := field.doc
  name := field.jsonName
  optional := field.mayBeAbsent
  type := match field.target? separate with
    | some fullName => field.cardinality.wrap (.named (view.variantName options direction fullName))
    | none => view.fieldType field

def recordBy (view : Viewpoint) (separate : String → Bool) (options : Options)
    (message : Message) : Option Direction → RecordType
  | none => view.defaultRecord message
  | some direction =>
    { doc := .of message.comments []
      name := view.variantName options direction message.fullName
      properties := (message.fieldsIn direction).map (view.propertyBy separate options direction) }

/-- What a shape of a message asks for, with the directions of the entry that asks for the shape. -/
def demandBy (view : Viewpoint) (separate : String → Bool) (options : Options) (usage : Usage)
    (message : Message) (shape : Option Direction) : Demand where
  owner := message.fullName
  record := view.recordBy separate options message shape
  pending := match shape with
    | none => []
    | some direction =>
      ((message.fieldsIn direction).filterMap (·.target? separate)).map (usage.passOn direction)

theorem variantTarget_eq (view : Viewpoint) (session : Session) (field : Field) :
    (view.variantTarget session field).1 = field.target? (session.memo.answer view.schema) ∧
      session.Consults view.schema (view.variantTarget session field).2 := by
  rw [variantTarget, Field.target?]
  cases field.kind.message? with
  | none => exact ⟨rfl, .refl _ session⟩
  | some fullName =>
    by_cases known : isWellKnown fullName = true
    · simp [known, Option.filter, Session.Consults.refl]
    · have answer : (session.ask view.schema fullName).1 =
          session.memo.answer view.schema fullName := rfl
      constructor
      · simp [known, answer, Option.filter]
      · simpa [known] using session.ask_consults view.schema fullName

theorem variantProperty_eq (view : Viewpoint) (direction : Direction) (session : Session)
    (field : Field) :
    (view.variantProperty direction session field).1 =
        (view.propertyBy (session.memo.answer view.schema) session.options direction field,
          field.target? (session.memo.answer view.schema)) ∧
      session.Consults view.schema (view.variantProperty direction session field).2 := by
  obtain ⟨target, consults⟩ := view.variantTarget_eq session field
  refine ⟨?_, consults⟩
  cases separate : field.target? (session.memo.answer view.schema) with
  | none => simp [variantProperty, propertyBy, target, separate]
  | some fullName => simp [variantProperty, propertyBy, target, separate, consults.options]

theorem variantProperties_eq (view : Viewpoint) (direction : Direction) (session : Session)
    (fields : List Field) :
    (view.variantProperties direction session fields).1 =
        (fields.map (view.propertyBy (session.memo.answer view.schema) session.options direction),
          fields.filterMap (·.target? (session.memo.answer view.schema))) ∧
      session.Consults view.schema (view.variantProperties direction session fields).2 := by
  induction fields generalizing session with
  | nil => exact ⟨rfl, .refl _ session⟩
  | cons field fields ih =>
    obtain ⟨first, consults⟩ := view.variantProperty_eq direction session field
    obtain ⟨others, later⟩ := ih (view.variantProperty direction session field).2
    rw [consults.answers, consults.options] at others
    refine ⟨?_, consults.trans later⟩
    simp only [variantProperties, first, others, List.map_cons, List.filterMap_cons]
    cases field.target? (session.memo.answer view.schema) <;> rfl

/-- Writing a shape gives the one that the answers and the options determine. -/
theorem variantRecord_eq (view : Viewpoint) (direction : Direction) (session : Session)
    (message : Message) :
    (view.variantRecord direction session message).1 =
        (view.recordBy (session.memo.answer view.schema) session.options message (some direction),
          (message.fieldsIn direction).filterMap (·.target? (session.memo.answer view.schema))) ∧
      session.Consults view.schema (view.variantRecord direction session message).2 := by
  obtain ⟨properties, consults⟩ :=
    view.variantProperties_eq direction session (message.fieldsIn direction)
  refine ⟨?_, consults⟩
  simp only [variantRecord, recordBy, properties, consults.options]

/-- A writer deals with demands: it writes the records of those that are granted, passes their
messages on, and apart from the claims it only asks. -/
structure Performs (view : Viewpoint) (session : Session) (demands : List Demand)
    (written : Written) : Prop where
  records : written.records = (session.registry.grant view.package demands).1.map (·.record)
  pending : written.pending =
    (session.registry.grant view.package demands).1.flatMap (·.pending)
  registry : written.session.registry = (session.registry.grant view.package demands).2
  follows : session.Follows view.schema written.session

theorem performs_nothing (view : Viewpoint) (session : Session) :
    view.Performs session [] (.nothing session) :=
  ⟨rfl, rfl, rfl, .refl _ session⟩

/-- What two writers do one after the other. -/
theorem Performs.append {front back : List Demand} {first second : Written}
    (atFirst : view.Performs session front first)
    (atSecond : view.Performs first.session back second) :
    view.Performs session (front ++ back)
      ⟨first.records ++ second.records, first.pending ++ second.pending, second.session⟩ := by
  obtain ⟨records, pending, registry, follows⟩ := atFirst
  obtain ⟨records', pending', registry', follows'⟩ := atSecond
  rw [registry] at records' pending' registry'
  constructor
  · simp [Registry.grant_append, records, records']
  · simp [Registry.grant_append, pending, pending']
  · simp [Registry.grant_append, registry']
  · exact follows.trans follows'

/-- A question beforehand changes nothing in what a writer does. -/
theorem Performs.of_consults {demands : List Demand} {written : Written} {asked : Session}
    (consults : session.Consults view.schema asked)
    (performs : view.Performs asked demands written) : view.Performs session demands written := by
  obtain ⟨records, pending, registry, follows⟩ := performs
  rw [consults.registry] at records pending registry
  exact ⟨records, pending, registry, consults.toFollows.trans follows⟩

/-- A record that is written only if the claim for its name is the first one. -/
theorem performs_claimed (demand : Demand) {after : Session}
    (consults : (session.claim view.package demand.record.name demand.owner).2.Consults
      view.schema after) :
    view.Performs session [demand]
      (if (session.claim view.package demand.record.name demand.owner).1
        then ⟨[demand.record], demand.pending, after⟩
        else .nothing (session.claim view.package demand.record.name demand.owner).2) := by
  have claim := session.claim_follows view.schema view.package demand.record.name demand.owner
  by_cases new : (session.claim view.package demand.record.name demand.owner).1 = true
  · rw [if_pos new]
    simp only [Session.claim] at new
    constructor
    · simp [Registry.grant, new]
    · simp [Registry.grant, new]
    · exact consults.registry
    · exact claim.trans consults.toFollows
  · rw [if_neg new]
    simp only [Session.claim] at new
    constructor
    · simp [Registry.grant, new, Written.nothing]
    · simp [Registry.grant, new, Written.nothing]
    · rfl
    · exact claim

theorem writeDefault_performs (view : Viewpoint) (session : Session) (separate : String → Bool)
    (usage : Usage) (message : Message) :
    view.Performs session [view.demandBy separate session.options usage message none]
      (view.writeDefault session message) := by
  let demand := view.demandBy separate session.options usage message none
  have same : view.writeDefault session message =
      if (session.claim view.package demand.record.name demand.owner).1
        then ⟨[demand.record], demand.pending,
          (session.claim view.package demand.record.name demand.owner).2⟩
        else .nothing (session.claim view.package demand.record.name demand.owner).2 := by
    split
    · next new => exact congrArg (Written.mk · [] _) (if_pos new)
    · next old => exact congrArg (Written.mk · [] _) (if_neg old)
  rw [same]
  exact performs_claimed demand (.refl _ _)

theorem writeVariant_performs (view : Viewpoint) (session : Session) (usage : Usage)
    (message : Message) (direction : Direction) :
    view.Performs session
      (if usage.isIn direction then
        [view.demandBy (session.memo.answer view.schema) session.options usage message direction]
      else [])
      (view.writeVariant session usage message direction) := by
  rw [writeVariant]
  split
  · let claimed := session.claim view.package
      (view.variantName session.options direction message.fullName) message.fullName
    obtain ⟨record, consults⟩ := view.variantRecord_eq direction claimed.2 message
    have claim := session.claim_follows view.schema view.package
      (view.variantName session.options direction message.fullName) message.fullName
    simp only [claimed, claim.answers, claim.options] at record consults
    simp only [record]
    exact performs_claimed (view.demandBy (session.memo.answer view.schema) session.options usage
      message direction) consults
  · exact performs_nothing view session

/-- The shapes for the directions of an entry, one after the other. -/
theorem writeVariants_performs (view : Viewpoint) (session : Session) (usage : Usage)
    (message : Message) :
    let first := view.writeVariant session usage message .request
    let second := view.writeVariant first.session usage message .response
    view.Performs session
      ((([.request, .response].filter usage.isIn).map some).map
        (view.demandBy (session.memo.answer view.schema) session.options usage message))
      ⟨first.records ++ second.records, first.pending ++ second.pending, second.session⟩ := by
  intro first second
  have atFirst := view.writeVariant_performs session usage message .request
  have atSecond := view.writeVariant_performs first.session usage message .response
  rw [atFirst.follows.answers, atFirst.follows.options] at atSecond
  have both := atFirst.append atSecond
  cases request : usage.isIn .request <;> cases response : usage.isIn .response <;>
    simpa [request, response] using both

/-- The session in which a given message has been asked about as far as its entry requires it. -/
def asked (view : Viewpoint) (session : Session) (usage : Usage) (message : Message) : Session :=
  if isWellKnown message.fullName || !(usage.inRequest || usage.inResponse) then session
  else (session.askGiven view.schema message).2

theorem extends_asked (view : Viewpoint) (session : Session) (usage : Usage) (message : Message) :
    session.Extends (view.asked session usage message) ∧
      (view.asked session usage message).registry = session.registry := by
  rw [asked]
  split
  · exact ⟨.refl session, rfl⟩
  · exact ⟨session.askGiven_extends view.schema message, rfl⟩

theorem asked_consults (view : Viewpoint) (session : Session) (usage : Usage) {message : Message}
    (found : view.schema.message? message.fullName = some message) :
    session.Consults view.schema (view.asked session usage message) := by
  rw [asked, ← Session.ask_of_found found]
  split
  · exact .refl _ session
  · exact session.ask_consults view.schema message.fullName

/-- An entry whose message is given itself writes the shapes that it asks for, with regard to the
answers that the session gives from then on. -/
theorem writeGiven_performs (view : Viewpoint) (session : Session) (usage : Usage)
    (message : Message) :
    let asked := view.asked session usage message
    view.Performs asked
      ((usage.shapes message (session.askGiven view.schema message).1).map
        (view.demandBy (asked.memo.answer view.schema) asked.options usage message))
      (view.writeGiven session usage message) := by
  intro asked
  rw [writeGiven, Usage.shapes]
  by_cases known : isWellKnown message.fullName = true
  · rw [if_pos known, if_pos known]
    have same : asked = session := if_pos (by simp [known])
    rw [same]
    exact performs_nothing view session
  rw [if_neg known, if_neg known]
  by_cases used : (usage.inRequest || usage.inResponse) = true
  · have same : asked = (session.askGiven view.schema message).2 := if_neg (by simp [known, used])
    rw [if_pos used, used, Bool.true_and, same]
    by_cases separate : (session.askGiven view.schema message).1 = true
    · rw [if_pos separate]
      simp only [separate, if_true]
      exact view.writeVariants_performs (session.askGiven view.schema message).2 usage message
    · rw [if_neg separate]
      simp only [separate]
      exact view.writeDefault_performs (session.askGiven view.schema message).2 _ usage message
  · have same : asked = session := if_pos (by simp [used])
    rw [if_neg used, if_neg (by simp [used]), same]
    exact view.writeDefault_performs session _ usage message

theorem write_of_found {usage : Usage} {message : Message}
    (found : view.schema.message? usage.message = some message) :
    view.write session usage = view.writeGiven session usage message := by
  have named := Schema.fullName_of_message? found
  have asks : session.ask view.schema usage.message = session.askGiven view.schema message := by
    rw [← named]
    exact Session.ask_of_found (named ▸ found)
  simp only [write, writeGiven, found, asks, named]

theorem write_of_unknown {usage : Usage} (unknown : view.schema.message? usage.message = none) :
    view.write session usage = .nothing session := by
  rw [write, unknown]

def demandsBy (view : Viewpoint) (separate : String → Bool) (options : Options) (usage : Usage) :
    List Demand :=
  match view.schema.message? usage.message with
  | none => []
  | some message =>
    (usage.shapes message (separate usage.message)).map
      (view.demandBy separate options usage message)

/-- An entry of the queue writes the shapes that it asks for. -/
theorem write_performs (view : Viewpoint) (session : Session) (usage : Usage) :
    view.Performs session
      (view.demandsBy (session.memo.answer view.schema) session.options usage)
      (view.write session usage) := by
  cases found : view.schema.message? usage.message with
  | none =>
    rw [demandsBy, found, write_of_unknown found]
    exact performs_nothing view session
  | some message =>
    have named := Schema.fullName_of_message? found
    have known : view.schema.message? message.fullName = some message := named.symm ▸ found
    have answer : (session.askGiven view.schema message).1 =
        session.memo.answer view.schema usage.message := by
      rw [← Session.ask_of_found known, named]
      rfl
    have consults := view.asked_consults session usage known
    have performs := view.writeGiven_performs session usage message
    simp only at performs
    rw [consults.answers, consults.options, answer, ← write_of_found found] at performs
    rw [demandsBy, found]
    exact performs.of_consults consults

end Viewpoint

end HttpClientGen
