import HttpClientGen.Proofs.Needed

/-!
# The registry and the text keep in step

A run may be made up of single steps that share one session: a message is asked for, a service or a
whole package is written, or an enumeration, or the types for transport. However the steps follow
each other, the registry notes exactly the records that stand in the documents, each unit has a
record of one name once, and this record is the one of the first message that has claimed the name.
-/

namespace HttpClientGen

inductive Step
  | synthesize (unit : String) (usage : Usage)
  | service (unit : String) (service : Service)
  | package (unit : String) (files : List SchemaFile)
  | enum (name : String) (enumeration : Enumeration)
  | header

namespace Step

/-- The unit that a step writes into. Enumerations and the types for transport claim no names, so it
does not matter where they go. -/
def unit : Step → String
  | synthesize unit _ | service unit _ | package unit _ => unit
  | enum _ _ | header => ""

/-- What a step writes, and the session after it. -/
def perform (schema : Schema) (session : Session) : Step → Document × Session
  | synthesize unit usage =>
    let (records, session) := (Viewpoint.mk schema unit).synthesize session usage
    (records.flatMap RecordType.render, session)
  | service unit provided =>
    let (code, session) := (Viewpoint.mk schema unit).serviceCode session provided
    (code.render, session)
  | package unit files =>
    let (file, session) := (Viewpoint.mk schema unit).packageFile session files
    (file.render, session)
  | enum name enumeration => ((UnionType.ofEnumeration name enumeration).render, session)
  | header => (transportTypes, session)

def performAll (schema : Schema) (session : Session) :
    List Step → List (String × Document) × Session
  | [] => ([], session)
  | step :: steps =>
    let (document, session) := step.perform schema session
    let (documents, session) := performAll schema session steps
    ((step.unit, document) :: documents, session)

def claims (schema : Schema) (session : Session) : Step → List Demand
  | synthesize unit usage =>
    let view : Viewpoint := ⟨schema, unit⟩
    view.claims session.options (view.taken session [usage])
  | package unit files =>
    let view : Viewpoint := ⟨schema, unit⟩
    view.claims session.options (view.fileTaken session files)
  | service _ _ | enum _ _ | header => []

def claimsAll (schema : Schema) (session : Session) : List Step → List (String × Demand)
  | [] => []
  | step :: steps =>
    (step.claims schema session).map (step.unit, ·) ++
      claimsAll schema (step.perform schema session).2 steps

variable {schema : Schema} {session : Session}

/-- A step deals with its claims: it writes the records of the granted ones and no other records, and
apart from noting their names it leaves the session as it was, with right answers. -/
structure Deals (schema : Schema) (session : Session) (step : Step) : Prop where
  registry : (step.perform schema session).2.registry =
    (session.registry.grant step.unit (step.claims schema session)).2
  names : (step.perform schema session).1.recordNames =
    (session.registry.grant step.unit (step.claims schema session)).1.map (·.record.name)
  written : ∀ demand ∈ (session.registry.grant step.unit (step.claims schema session)).1,
    demand.record.render <:+: (step.perform schema session).1
  options : (step.perform schema session).2.options = session.options
  sound : (step.perform schema session).2.memo.Sound schema

def isClaimFor (unit name : String) (claim : String × Demand) : Bool :=
  claim.1 = unit ∧ claim.2.record.name = name

/-- The claim is one for a shape of a message of the schema, which becomes the owner of the name. -/
structure IsShapeClaim (schema : Schema) (options : Options) (claim : String × Demand)
    (message : Message) (shape : Option Direction) : Prop where
  found : schema.message? message.fullName = some message
  owner : claim.2.owner = message.fullName
  record : claim.2.record = (Viewpoint.mk schema claim.1).recordOf options message shape

/-- What the steps of a list have been granted, all in all. The records in their documents are those
of the granted claims, and a claim is granted if it is the first one for a name that is free. -/
structure DealsAll (schema : Schema) (session : Session) (steps : List Step)
    (granted : List (String × Demand)) : Prop where
  entries : (performAll schema session steps).2.registry.entries =
    (granted.map fun claim => claim.2.entry claim.1).reverse ++ session.registry.entries
  names : (performAll schema session steps).1.flatMap
      (fun written => written.2.recordNames.map (written.1, ·)) =
    granted.map fun claim => (claim.1, claim.2.record.name)
  written : ∀ unit document name, (unit, document) ∈ (performAll schema session steps).1 →
    name ∈ document.recordNames → ∃ demand, (unit, demand) ∈ granted ∧
      demand.record.name = name ∧ demand.record.render <:+: document
  first : ∀ claim ∈ granted, session.registry.owner? claim.1 claim.2.record.name = none ∧
    (claimsAll schema session steps).find? (isClaimFor claim.1 claim.2.record.name) = some claim
  owners : ∀ unit name, (performAll schema session steps).2.registry.owner? unit name =
    (session.registry.owner? unit name).or
      (((claimsAll schema session steps).find? (isClaimFor unit name)).map (·.2.owner))
  distinct : session.registry.Distinct →
    (performAll schema session steps).2.registry.Distinct
  shapes : ∀ claim ∈ claimsAll schema session steps, ∃ message shape,
    IsShapeClaim schema session.options claim message shape

/-- Every claim of a step is for a shape of some message. -/
theorem exists_isShapeClaim {step : Step} {demand : Demand}
    (claimed : demand ∈ step.claims schema session) :
    ∃ message shape, IsShapeClaim schema session.options (step.unit, demand) message shape := by
  obtain ⟨usage, demanded⟩ :
      ∃ usage, demand ∈ (Viewpoint.mk schema step.unit).demands session.options usage := by
    cases step with
    | synthesize unit usage =>
      obtain ⟨usage, -, demanded⟩ := List.mem_flatMap.mp claimed
      exact ⟨usage, demanded⟩
    | package unit files =>
      obtain ⟨usage, -, demanded⟩ := List.mem_flatMap.mp claimed
      exact ⟨usage, demanded⟩
    | service | enum | header => cases claimed
  obtain ⟨message, shape, isFor⟩ := Viewpoint.exists_isFor (List.mem_singleton_self usage) demanded
  exact ⟨message, shape, isFor.found, isFor.owner, isFor.record⟩

/-- The claims of a step for a name are those for this name among its demands. -/
theorem find?_map_unit (unit otherUnit name : String) (demands : List Demand) :
    (demands.map (unit, ·)).find? (isClaimFor otherUnit name) =
      if otherUnit = unit then (demands.find? (·.record.name = name)).map (unit, ·) else none := by
  rw [List.find?_map]
  by_cases here : otherUnit = unit
  · subst here
    simp [isClaimFor, Function.comp_def]
  · simp [isClaimFor, Function.comp_def, Ne.symm here, here]

theorem performAll_cons (schema : Schema) (session : Session) (step : Step) (steps : List Step) :
    performAll schema session (step :: steps) =
      ((step.unit, (step.perform schema session).1) ::
          (performAll schema (step.perform schema session).2 steps).1,
        (performAll schema (step.perform schema session).2 steps).2) :=
  rfl

/-- The owner of a name after a step: the one before it, or else the one of the first claim of the
step for the name. -/
theorem Deals.owner?_eq {step : Step} (here : Deals schema session step) (unit name : String) :
    (step.perform schema session).2.registry.owner? unit name =
      (session.registry.owner? unit name).or
        ((((step.claims schema session).map (step.unit, ·)).find? (isClaimFor unit name)).map
          (·.2.owner)) := by
  rw [here.registry, Registry.owner?_grant, find?_map_unit]
  split
  · rw [Option.map_map]
    rfl
  · rfl

/-- A granted claim of a step is the first one for its name, which was free. -/
theorem first_of_granted {step : Step} {demand : Demand}
    (granted : demand ∈ (session.registry.grant step.unit (step.claims schema session)).1) :
    session.registry.owner? step.unit demand.record.name = none ∧
      ((step.claims schema session).map (step.unit, ·)).find?
        (isClaimFor step.unit demand.record.name) = some (step.unit, demand) := by
  have inTime : demand ∈ (session.registry.grant step.unit (step.claims schema session)).1.filter
      (·.record.name = demand.record.name) := List.mem_filter.mpr ⟨granted, by simp⟩
  rw [Registry.filter_grant] at inTime
  rw [find?_map_unit, if_pos rfl]
  split at inTime
  · cases inTime
  · next free =>
    have found := Option.mem_toList.mp inTime
    exact ⟨by simpa using free, congrArg (Option.map (step.unit, ·)) found⟩

/-- A step before other ones. What it is granted comes first, and a later claim that is granted is
for a name that the step has not claimed. -/
theorem Deals.cons {step : Step} {steps : List Step} {granted : List (String × Demand)}
    (here : Deals schema session step)
    (later : DealsAll schema (step.perform schema session).2 steps granted) :
    DealsAll schema session (step :: steps)
      ((session.registry.grant step.unit (step.claims schema session)).1.map (step.unit, ·) ++
        granted) := by
  constructor
  case entries =>
    rw [performAll_cons, later.entries, here.registry, Registry.grant_entries,
      List.map_append, List.reverse_append, List.map_map, List.append_assoc]
    rfl
  case names =>
    rw [performAll_cons, List.flatMap_cons, here.names, later.names, List.map_append,
      List.map_map, List.map_map]
    rfl
  case written =>
    intro unit document name listed declared
    rw [performAll_cons] at listed
    rcases List.mem_cons.mp listed with same | others
    · obtain ⟨rfl, rfl⟩ := Prod.mk.inj same
      rw [here.names] at declared
      obtain ⟨demand, isGranted, rfl⟩ := List.mem_map.mp declared
      exact ⟨demand, List.mem_append_left _ (List.mem_map_of_mem isGranted), rfl,
        here.written demand isGranted⟩
    · obtain ⟨demand, isGranted, same, stands⟩ := later.written unit document name others declared
      exact ⟨demand, List.mem_append_right _ isGranted, same, stands⟩
  case first =>
    intro claim isGranted
    rw [claimsAll, List.find?_append]
    rcases List.mem_append.mp isGranted with now | afterwards
    · obtain ⟨demand, inTime, rfl⟩ := List.mem_map.mp now
      obtain ⟨free, found⟩ := first_of_granted inTime
      exact ⟨free, by rw [found, Option.some_or]⟩
    · obtain ⟨free, found⟩ := later.first claim afterwards
      rw [here.owner?_eq, Option.or_eq_none_iff, Option.map_eq_none_iff] at free
      exact ⟨free.1, by rw [free.2, Option.none_or, found]⟩
  case owners =>
    intro unit name
    rw [performAll_cons, later.owners, here.owner?_eq, claimsAll, List.find?_append,
      Option.map_or, Option.or_assoc]
  case distinct =>
    intro distinct
    refine later.distinct ?_
    rw [here.registry]
    exact Registry.distinct_grant distinct _
  case shapes =>
    intro claim claimed
    rcases List.mem_append.mp claimed with now | afterwards
    · obtain ⟨demand, isClaim, rfl⟩ := List.mem_map.mp now
      exact exists_isShapeClaim isClaim
    · obtain ⟨message, shape, isFor⟩ := later.shapes claim afterwards
      rw [here.options] at isFor
      exact ⟨message, shape, isFor⟩

end Step

end HttpClientGen
