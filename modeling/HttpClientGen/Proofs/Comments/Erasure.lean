import HttpClientGen.Proofs.Client
import HttpClientGen.Proofs.Contents
import HttpClientGen.Proofs.Lookup

/-!
# Schemas without their comments

A schema without its comments declares the same under the same names, so every walk over it goes the
same way: the search for telling fields, the collection of what a file has to declare, the resolution
of field paths and the search for query leaves. Methods have the same plans and the same faults.
-/

namespace HttpClientGen

section Erasure

def Field.uncommented (field : Field) : Field :=
  { field with comments := none }

def Message.uncommented (message : Message) : Message :=
  { message with fields := message.fields.map Field.uncommented, comments := none }

def EnumValue.uncommented (value : EnumValue) : EnumValue :=
  { value with comments := none }

def Enumeration.uncommented (enumeration : Enumeration) : Enumeration :=
  { enumeration with values := enumeration.values.map EnumValue.uncommented, comments := none }

def Method.uncommented (method : Method) : Method :=
  { method with comments := none }

def Service.uncommented (service : Service) : Service :=
  { service with methods := service.methods.map Method.uncommented, comments := none }

def SchemaFile.uncommented (file : SchemaFile) : SchemaFile :=
  { file with
    messages := file.messages.map Message.uncommented
    enums := file.enums.map Enumeration.uncommented
    services := file.services.map Service.uncommented }

theorem placesFrom_map {names : SchemaFile → List String} {f : SchemaFile → SchemaFile}
    (same : ∀ file, names (f file) = names file) (index : Nat) (files : List SchemaFile) :
    placesFrom names index (files.map f) = placesFrom names index files := by
  induction files generalizing index with
  | nil => rfl
  | cons file files ih => rw [List.map_cons, placesFrom, placesFrom, ih, placesIn, placesIn, same]

/-- The schema without any comments. -/
def Schema.uncommented (schema : Schema) : Schema where
  files := schema.files.map SchemaFile.uncommented
  messagePlaces := schema.messagePlaces
  enumPlaces := schema.enumPlaces
  messagePlaces_eq := by
    rw [schema.messagePlaces_eq, placesFrom_map]
    intro file
    rw [SchemaFile.messageNames, SchemaFile.uncommented, List.map_map]
    rfl
  enumPlaces_eq := by
    rw [schema.enumPlaces_eq, placesFrom_map]
    intro file
    rw [SchemaFile.enumNames, SchemaFile.uncommented, List.map_map]
    rfl

/-! What is found in a schema keeps fields and messages, and with them their comments. -/

def Contents.uncommented (contents : Contents) : Contents :=
  { contents with
    messages := contents.messages.map Message.uncommented
    enums := contents.enums.map Enumeration.uncommented }

def FieldAccess.uncommented (access : FieldAccess) : FieldAccess :=
  ⟨access.fields.map Field.uncommented⟩

def PathPart.uncommented : PathPart → PathPart
  | text fixed => text fixed
  | value access => value access.uncommented

def Payload.uncommented : Payload → Payload
  | nothing => nothing
  | request => request
  | field access => field access.uncommented

def MethodPlan.uncommented (plan : MethodPlan) : MethodPlan :=
  { plan with
    method := plan.method.uncommented
    input := plan.input.uncommented
    path := plan.path.map PathPart.uncommented
    payload := plan.payload.uncommented }

def Outcome.uncommented : Outcome → Outcome
  | leftOut => leftOut
  | broken errors => broken errors
  | planned plan => planned plan.uncommented

end Erasure

section Declarations

variable {field : Field} {message : Message} {schema : Schema} {name : String}

@[simp]
theorem Message.targets_uncommented : message.uncommented.targets = message.targets := by
  rw [targets, uncommented, List.filterMap_map]
  rfl

@[simp]
theorem Message.refs_uncommented : message.uncommented.refs = message.refs := by
  rw [refs, uncommented, List.filterMap_map]
  rfl

@[simp]
theorem Message.discriminates_uncommented :
    message.uncommented.discriminates = message.discriminates := by
  rw [discriminates, uncommented, List.any_map]
  rfl

theorem Message.field?_uncommented :
    message.uncommented.field? name = (message.field? name).map Field.uncommented := by
  rw [field?, uncommented, List.find?_map]
  rfl

theorem Message.fieldsIn_uncommented (direction : Direction) :
    message.uncommented.fieldsIn direction =
      (message.fieldsIn direction).map Field.uncommented := by
  rw [fieldsIn, uncommented, List.filter_map]
  rfl

theorem SchemaFile.declaredRefs_uncommented (file : SchemaFile) :
    file.uncommented.declaredRefs = file.declaredRefs := by
  rw [declaredRefs, uncommented, List.map_map, List.map_map]
  rfl

theorem SchemaFile.methodRefs_uncommented (file : SchemaFile) :
    file.uncommented.methodRefs = file.methodRefs := by
  rw [methodRefs, uncommented, List.flatMap_map]
  refine List.flatMap_congr fun service _ => ?_
  rw [Service.uncommented, List.flatMap_map]
  rfl

theorem Schema.message?_uncommented :
    schema.uncommented.message? name = (schema.message? name).map Message.uncommented := by
  have all : schema.uncommented.files.flatMap (·.messages) =
      (schema.files.flatMap (·.messages)).map Message.uncommented := by
    rw [uncommented, List.flatMap_map, List.map_flatMap]
    rfl
  rw [message?_eq_find?, message?_eq_find?, all, ← List.map_reverse, List.find?_map]
  rfl

theorem Schema.enum?_uncommented :
    schema.uncommented.enum? name = (schema.enum? name).map Enumeration.uncommented := by
  have all : schema.uncommented.files.flatMap (·.enums) =
      (schema.files.flatMap (·.enums)).map Enumeration.uncommented := by
    rw [uncommented, List.flatMap_map, List.map_flatMap]
    rfl
  rw [enum?_eq_find?, enum?_eq_find?, all, ← List.map_reverse, List.find?_map]
  rfl

theorem Schema.file?_uncommented :
    schema.uncommented.file? name = (schema.file? name).map SchemaFile.uncommented := by
  rw [file?, file?, uncommented, List.find?_map]
  rfl

end Declarations

namespace Schema

variable {schema : Schema}

theorem reachable_uncommented (met todo : List String) :
    schema.uncommented.reachable met todo =
      (schema.reachable met todo).map Message.uncommented := by
  fun_induction reachable schema met todo with
  | case1 => rw [reachable, List.map_nil]
  | case2 met name rest old ih => rw [reachable, dif_pos old, ih]
  | case3 met name rest new unknown ih =>
    have alsoUnknown : schema.uncommented.message? name = none := by
      rw [message?_uncommented, unknown, Option.map_none]
    rw [reachable, dif_neg new]
    split
    · exact ih
    · next found => cases found.symm.trans alsoUnknown
  | case4 met name rest new message found ih =>
    have alsoFound : schema.uncommented.message? name = some message.uncommented := by
      rw [message?_uncommented, found, Option.map_some]
    rw [reachable, dif_neg new]
    split
    · next unknown => cases unknown.symm.trans alsoFound
    · next other same =>
      obtain rfl := Option.some.inj (alsoFound.symm.trans same)
      rw [Message.targets_uncommented, ih, List.map_cons]

@[simp]
theorem discriminates_uncommented (fullName : String) :
    schema.uncommented.discriminates fullName = schema.discriminates fullName := by
  rw [discriminates, discriminates, reachable_uncommented, List.any_map]
  exact congrArg (List.any _) (funext fun _ => Message.discriminates_uncommented)

theorem contentsOf_uncommented (met : List String) (queue : List TypeRef) :
    schema.uncommented.contentsOf met queue = (schema.contentsOf met queue).uncommented := by
  fun_induction contentsOf schema met queue with
  | case1 =>
    rw [contentsOf]
    rfl
  | case2 met ref rest type known ih =>
    rw [contentsOf, known]
    exact congrArg (Contents.consWellKnown type) ih
  | case3 met ref rest ordinary old ih => rw [contentsOf_of_met ordinary old, ih]
  | case4 met rest fullName new others unknown ordinary _ ih =>
    have alsoUnknown : schema.uncommented.enum? fullName = none := by
      rw [enum?_uncommented, unknown, Option.map_none]
    exact (contentsOf_enumeration_of_absent ordinary new alsoUnknown).trans ih
  | case5 met rest fullName new others enumeration found ordinary _ ih =>
    have alsoFound : schema.uncommented.enum? fullName = some enumeration.uncommented := by
      rw [enum?_uncommented, found, Option.map_some]
    exact (contentsOf_enumeration_of_found ordinary new alsoFound).trans
      (congrArg (Contents.consEnum enumeration.uncommented) ih)
  | case6 met rest fullName new unknown ordinary _ ih =>
    have alsoUnknown : schema.uncommented.message? fullName = none := by
      rw [message?_uncommented, unknown, Option.map_none]
    exact (contentsOf_message_of_absent ordinary new alsoUnknown).trans ih
  | case7 met rest fullName new message found ordinary _ ih =>
    have alsoFound : schema.uncommented.message? fullName = some message.uncommented := by
      rw [message?_uncommented, found, Option.map_some]
    refine (contentsOf_message_of_found ordinary new alsoFound).trans ?_
    rw [Message.refs_uncommented]
    exact congrArg (Contents.consMessage message.uncommented) ih

theorem contents_uncommented (files : List SchemaFile) :
    schema.uncommented.contents (files.map SchemaFile.uncommented) =
      (schema.contents files).uncommented := by
  simp only [contents, List.flatMap_map, SchemaFile.declaredRefs_uncommented,
    SchemaFile.methodRefs_uncommented, contentsOf_uncommented]
  rfl

theorem nested?_uncommented (field : Field) :
    schema.uncommented.nested? field.uncommented =
      (schema.nested? field).map Message.uncommented := by
  rw [nested?, nested?, Field.uncommented]
  by_cases single : field.cardinality = .singular
  · rw [if_pos single, if_pos single]
    cases field.kind.message? with
    | none => rfl
    | some target => exact message?_uncommented
  · rw [if_neg single, if_neg single]
    rfl

theorem fieldsAlong_uncommented (message : Message) (path : List String) :
    schema.uncommented.fieldsAlong message.uncommented path =
      (schema.fieldsAlong message path).map (List.map Field.uncommented) := by
  induction path generalizing message with
  | nil => rfl
  | cons segment path ih =>
    rw [fieldsAlong, fieldsAlong, Message.field?_uncommented]
    cases message.field? segment with
    | none => rfl
    | some field =>
      cases path with
      | nil => rfl
      | cons next path =>
        simp only [Option.map_some, nested?_uncommented]
        cases schema.nested? field with
        | none => rfl
        | some inner =>
          simp only [Option.map_some, ih]
          cases schema.fieldsAlong inner (next :: path) <;> rfl

theorem resolve_uncommented (message : Message) (path : FieldPath) :
    schema.uncommented.resolve message.uncommented path =
      (schema.resolve message path).map FieldAccess.uncommented := by
  rw [resolve, resolve, fieldsAlong_uncommented]
  cases schema.fieldsAlong message path.names <;> rfl

theorem leafPaths_uncommented (onPath : List String) (message : Message) :
    schema.uncommented.leafPaths onPath message.uncommented =
      (schema.leafPaths onPath message).map (List.map Field.uncommented) := by
  fun_induction leafPaths schema onPath message with
  | case1 onPath message ih =>
    rw [leafPaths, Message.uncommented, List.flatMap_map, List.map_flatMap]
    refine List.flatMap_congr fun field _ => ?_
    have same : field.uncommented.isQueryLeaf = field.isQueryLeaf := rfl
    have sameNested := schema.nested?_uncommented field
    rw [same]
    split
    · rfl
    · cases nested : schema.nested? field with
      | none =>
        rw [nested] at sameNested
        split
        · rfl
        · next other => cases other.symm.trans sameNested
      | some inner =>
        rw [nested] at sameNested
        split
        · next none => cases none.symm.trans sameNested
        · next other alsoNested =>
          obtain rfl := Option.some.inj (alsoNested.symm.trans sameNested)
          have named : inner.uncommented.fullName = inner.fullName := rfl
          rw [named]
          split
          · rfl
          · next new =>
            rw [ih field inner nested new, List.map_map, List.map_map]
            rfl

theorem queryLeaves_uncommented (message : Message) :
    schema.uncommented.queryLeaves message.uncommented =
      (schema.queryLeaves message).map FieldAccess.uncommented := by
  have named : message.uncommented.fullName = message.fullName := rfl
  rw [queryLeaves, queryLeaves, named, leafPaths_uncommented, List.map_map, List.map_map]
  rfl

/-- Steps succeed together with what their results are turned into. -/
theorem mapM_id_map {ε α β : Type} (f : α → β) (steps : List (Except ε α)) :
    (steps.map (Except.map f)).mapM id = (steps.mapM id).map (List.map f) := by
  induction steps with
  | nil => rfl
  | cons step steps ih =>
    rw [List.map_cons, List.mapM_cons, List.mapM_cons, ih]
    cases step with
    | error failure => rfl
    | ok result => cases steps.mapM id <;> rfl

theorem failure?_map {ε α β : Type} (f : α → β) (step : Except ε α) :
    planRule.failure? (step.map f) = planRule.failure? step := by
  cases step <;> rfl

section Methods

variable (schema) (input : Message)

theorem pathPart_uncommented (segment : Segment) :
    schema.uncommented.pathPart input.uncommented segment =
      (schema.pathPart input segment).map PathPart.uncommented := by
  cases segment with
  | literal text => rfl
  | single => rfl
  | multiple => rfl
  | capture path pattern =>
    rw [pathPart, pathPart, resolve_uncommented]
    cases schema.resolve input path <;> rfl

theorem payload_uncommented (body : BodySelector) :
    schema.uncommented.payload input.uncommented body =
      (schema.payload input body).map Payload.uncommented := by
  cases body with
  | none => rfl
  | whole => rfl
  | field path =>
    rw [payload, payload, resolve_uncommented]
    cases schema.resolve input path <;> rfl

theorem planRule_uncommented (name : String) (method : Method) (rule : Rule) :
    schema.uncommented.planRule name method.uncommented input.uncommented rule =
      (schema.planRule name method input rule).uncommented := by
  have sameParts : rule.template.segments.map (schema.uncommented.pathPart input.uncommented) =
      (rule.template.segments.map (schema.pathPart input)).map
        (Except.map PathPart.uncommented) := by
    rw [List.map_map]
    exact List.map_congr_left fun segment _ => schema.pathPart_uncommented input segment
  rw [planRule, planRule, sameParts, payload_uncommented]
  generalize rule.template.segments.map (schema.pathPart input) = parts
  simp only [mapM_id_map, List.filterMap_map, Function.comp_def, failure?_map]
  cases parts.mapM id with
  | error failure => rfl
  | ok paths =>
    cases schema.payload input rule.body with
    | error failure => rfl
    | ok payload =>
      have verb : (rule.template.verb.map fun verb => PathPart.text (":" ++ verb)).toList =
          ((rule.template.verb.map fun verb => PathPart.text (":" ++ verb)).toList).map
            PathPart.uncommented := by
        cases rule.template.verb <;> rfl
      simp only [Except.map, Outcome.uncommented, MethodPlan.uncommented, List.map_append,
        List.map_flatMap, List.flatMap_map, ← verb]
      rfl

end Methods

end Schema

namespace Service

variable {schema : Schema} {service : Service}

theorem outcome_uncommented (method : Method) :
    service.uncommented.outcome schema.uncommented method.uncommented =
      (service.outcome schema method).uncommented := by
  simp only [outcome, Method.uncommented, Schema.message?_uncommented]
  split
  · rfl
  · split
    · rfl
    · split
      · rfl
      · rfl
      · cases schema.message? method.input with
        | none => rfl
        | some input => exact schema.planRule_uncommented input _ method _

theorem outcomes_uncommented :
    service.uncommented.outcomes schema.uncommented =
      (service.outcomes schema).map Outcome.uncommented := by
  rw [outcomes, outcomes, List.map_map]
  simp only [uncommented, List.map_map]
  exact List.map_congr_left fun method _ => outcome_uncommented method

theorem plans_uncommented :
    service.uncommented.plans schema.uncommented =
      (service.plans schema).map MethodPlan.uncommented := by
  rw [plans, plans, outcomes_uncommented, List.filterMap_map, List.map_filterMap]
  exact List.filterMap_congr fun outcome _ => by cases outcome <;> rfl

theorem errors_uncommented :
    service.uncommented.errors schema.uncommented = service.errors schema := by
  rw [errors, errors, outcomes_uncommented, List.flatMap_map]
  exact List.flatMap_congr fun outcome _ => by cases outcome <;> rfl

end Service

end HttpClientGen
