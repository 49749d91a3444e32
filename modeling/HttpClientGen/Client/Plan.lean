import HttpClientGen.Session

/-!
# Plans for methods

A method gets a client function if it does not stream, has a binding of a supported kind, and all
field paths of the binding lead to fields of its input. `Service.outcome` decides this for one
method, and collects every fault where the binding is broken.
-/

namespace HttpClientGen

inductive PathPart
  | text (text : String)
  | value (access : FieldAccess)
  deriving DecidableEq, Repr

def PathPart.access? : PathPart → Option FieldAccess
  | text _ => none
  | value access => some access

/-- What a client function sends as the body. -/
inductive Payload
  | nothing
  | request
  | field (access : FieldAccess)
  deriving DecidableEq, Repr

structure MethodPlan where
  method : Method
  input : Message
  verb : HttpMethod
  path : List PathPart
  payload : Payload
  deriving DecidableEq, Repr

def MethodPlan.captures (plan : MethodPlan) : List FieldAccess :=
  plan.path.filterMap PathPart.access?

/-- What becomes of a method. -/
inductive Outcome
  /-- The method has no client function, and nothing is wrong with it. -/
  | leftOut
  | broken (errors : List GenerationError)
  | planned (plan : MethodPlan)
  deriving DecidableEq, Repr

namespace Outcome

def plan? : Outcome → Option MethodPlan
  | planned plan => some plan
  | _ => none

def errors : Outcome → List GenerationError
  | broken errors => errors
  | _ => []

end Outcome

namespace Schema

def pathPart (schema : Schema) (input : Message) :
    Segment → Except (FieldPath × AccessError) PathPart
  | .literal text => .ok (.text text)
  | .single => .ok (.text "*")
  | .multiple => .ok (.text "**")
  | .capture path _ =>
    match schema.resolve input path with
    | .ok access => .ok (.value access)
    | .error cause => .error (path, cause)

def payload (schema : Schema) (input : Message) :
    BodySelector → Except (FieldPath × AccessError) Payload
  | .none => .ok .nothing
  | .whole => .ok .request
  | .field path =>
    match schema.resolve input path with
    | .ok access => .ok (.field access)
    | .error cause => .error (path, cause)

/-- The plan for a method whose binding has been read and whose input is known. -/
def planRule (schema : Schema) (name : String) (method : Method) (input : Message) (rule : Rule) :
    Outcome :=
  let parts := rule.template.segments.map (schema.pathPart input)
  let payload := schema.payload input rule.body
  match parts.mapM id, payload with
  | .ok parts, .ok payload =>
    let verb := (rule.template.verb.map fun verb => PathPart.text (":" ++ verb)).toList
    .planned
      { method, input, payload, verb := rule.method
        path := parts.flatMap (fun part => [.text "/", part]) ++ verb }
  | _, _ =>
    let failures := parts.filterMap failure? ++ (failure? payload).toList
    .broken (failures.map fun (path, cause) => .unresolvedFieldPath name path cause)
where
  /-- The failure of a step, if it failed. -/
  failure? {ε α : Type} : Except ε α → Option ε
    | .error failure => some failure
    | .ok _ => none

end Schema

namespace Service

def methodName (service : Service) (method : Method) : String :=
  service.fullName ++ "." ++ method.name

/-- What becomes of a method of the service. -/
def outcome (service : Service) (schema : Schema) (method : Method) : Outcome :=
  let name := service.methodName method
  if method.clientStreaming || method.serverStreaming then .leftOut
  else
    match method.binding with
    | none => .leftOut
    | some binding =>
      match binding.rule? with
      | .error cause => .broken [.templateSyntax name cause]
      | .ok none => .leftOut
      | .ok (some rule) =>
        match schema.message? method.input with
        | none => .broken [.unresolvedMessage name method.input]
        | some input => schema.planRule name method input rule

/-- What becomes of the methods, in the order of their declaration. -/
def outcomes (service : Service) (schema : Schema) : List Outcome :=
  service.methods.map (service.outcome schema)

def plans (service : Service) (schema : Schema) : List MethodPlan :=
  (service.outcomes schema).filterMap Outcome.plan?

def errors (service : Service) (schema : Schema) : List GenerationError :=
  (service.outcomes schema).flatMap Outcome.errors

end Service

end HttpClientGen
