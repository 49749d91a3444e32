import HttpClientGen.Proofs.Client
import HttpClientGen.Proofs.Except

/-!
# What becomes of a method

The faults of a method, said without a plan: a method that is left out has none, a binding that
cannot be read has the fault of its template or else of its body, and a binding that can be read has
one fault for every field path that leads nowhere. A method gets a plan exactly if a binding is in
force for it and it has no faults, so nothing is made of a binding that holds only in part.
-/

namespace HttpClientGen

/-- The binding in force: streaming methods and unsupported kinds have none. -/
def Method.boundBy? (method : Method) : Option Binding :=
  if method.clientStreaming || method.serverStreaming then none
  else method.binding.filter fun binding => (HttpMethod.ofKind? binding.kind).isSome

theorem Method.boundBy?_eq_none_iff {method : Method} :
    method.boundBy? = none ↔ (method.clientStreaming = true ∨ method.serverStreaming = true) ∨
      method.binding = none ∨
      ∃ binding, method.binding = some binding ∧ HttpMethod.ofKind? binding.kind = none := by
  rw [boundBy?]
  by_cases streams : (method.clientStreaming || method.serverStreaming) = true
  · rw [if_pos streams]
    exact ⟨fun _ => Or.inl (by simpa using streams), fun _ => rfl⟩
  · rw [if_neg streams, or_iff_right (by simpa using streams)]
    cases method.binding <;> simp [Option.filter_eq_none_iff]

theorem Method.binding_of_boundBy? {method : Method} {binding : Binding}
    (inForce : method.boundBy? = some binding) : method.binding = some binding := by
  rw [boundBy?] at inForce
  split at inForce
  · cases inForce
  · exact (Option.filter_eq_some_iff.mp inForce).1

def BodySelector.path? : BodySelector → Option FieldPath
  | .field path => some path
  | _ => Option.none

theorem BodySelector.mem_path?_iff {body : BodySelector} {path : FieldPath} :
    path ∈ body.path?.toList ↔ body = .field path := by
  cases body <;> simp [path?, eq_comm]

namespace Schema

variable {schema : Schema}

/-- Why a field path leads nowhere, if that is so. -/
def unresolved? (schema : Schema) (input : Message) (path : FieldPath) :
    Option (FieldPath × AccessError) :=
  match schema.resolve input path with
  | .ok _ => none
  | .error cause => some (path, cause)

def faultsIn (schema : Schema) (name input : String) (binding : Binding) : List GenerationError :=
  match Template.parse binding.path with
  | .error cause => [.templateSyntax name cause]
  | .ok template =>
    match BodySelector.parse binding.body with
    | .error cause => [.templateSyntax name cause]
    | .ok body =>
      match schema.message? input with
      | none => [.unresolvedMessage name input]
      | some message =>
        ((template.capturePaths ++ body.path?.toList).filterMap (schema.unresolved? message)).map
          fun (path, cause) => .unresolvedFieldPath name path cause

/-- A method in which a run finds no fault: it is left out, or all of its binding holds. -/
inductive Accepts (schema : Schema) (method : Method) : Prop
  | streaming (streams : method.clientStreaming = true ∨ method.serverStreaming = true)
  | unbound (absent : method.binding = none)
  | unsupported {binding : Binding} (bound : method.binding = some binding)
      (unknown : HttpMethod.ofKind? binding.kind = none)
  | resolved {binding : Binding} {template : Template} {body : BodySelector} {input : Message}
      (bound : method.binding = some binding)
      (path : Template.parse binding.path = .ok template)
      (selector : BodySelector.parse binding.body = .ok body)
      (found : schema.message? method.input = some input)
      (captured : ∀ path ∈ template.capturePaths, ∃ access, schema.resolve input path = .ok access)
      (field : ∀ path, body = .field path → ∃ access, schema.resolve input path = .ok access)

theorem unresolved?_eq_none_iff {input : Message} {path : FieldPath} :
    schema.unresolved? input path = none ↔ ∃ access, schema.resolve input path = .ok access := by
  rw [unresolved?]
  split <;> simp_all

/-- A binding has no faults if it can be read, the input is known, and all field paths lead to a
field of it. -/
theorem faultsIn_eq_nil_iff {name input : String} {binding : Binding} :
    schema.faultsIn name input binding = [] ↔
      ∃ template, Template.parse binding.path = .ok template ∧
        ∃ body, BodySelector.parse binding.body = .ok body ∧
          ∃ message, schema.message? input = some message ∧
            ∀ path ∈ template.capturePaths ++ body.path?.toList,
              ∃ access, schema.resolve message path = .ok access := by
  rw [faultsIn]
  cases Template.parse binding.path with
  | error cause => simp
  | ok template =>
    cases BodySelector.parse binding.body with
    | error cause => simp
    | ok body =>
      cases schema.message? input with
      | none => simp
      | some message => simp [unresolved?_eq_none_iff, or_imp, forall_and]

theorem failure?_pathPart (input : Message) (segment : Segment) :
    planRule.failure? (schema.pathPart input segment) =
      segment.path?.bind (schema.unresolved? input) := by
  cases segment with
  | literal text => rfl
  | single => rfl
  | multiple => rfl
  | capture path pattern =>
    simp only [pathPart, Segment.path?, Option.bind_some, unresolved?]
    cases schema.resolve input path <;> rfl

theorem failure?_payload (input : Message) (body : BodySelector) :
    planRule.failure? (schema.payload input body) = body.path?.bind (schema.unresolved? input) := by
  cases body with
  | none => rfl
  | whole => rfl
  | field path =>
    simp only [payload, BodySelector.path?, Option.bind_some, unresolved?]
    cases schema.resolve input path <;> rfl

/-- The steps of a plan fail where field paths lead nowhere: first those of the template, in its
order, then that of the body. -/
theorem failures_eq (input : Message) (template : Template) (body : BodySelector) :
    (template.segments.map (schema.pathPart input)).filterMap planRule.failure? ++
        (planRule.failure? (schema.payload input body)).toList =
      (template.capturePaths ++ body.path?.toList).filterMap (schema.unresolved? input) := by
  have segments : (template.segments.map (schema.pathPart input)).filterMap planRule.failure? =
      template.capturePaths.filterMap (schema.unresolved? input) := by
    rw [Template.capturePaths, List.filterMap_map, List.filterMap_filterMap]
    exact congrArg (List.filterMap · _) (funext (failure?_pathPart input))
  rw [List.filterMap_append, segments, failure?_payload]
  cases body.path? with
  | none => rfl
  | some path => cases failed : schema.unresolved? input path <;> simp [failed]

/-- Steps succeed together if none of them fails. -/
theorem exists_mapM_id_eq_ok_iff {ε α : Type} {steps : List (Except ε α)} :
    (∃ xs, steps.mapM id = .ok xs) ↔ steps.filterMap planRule.failure? = [] := by
  induction steps with
  | nil => simp [pure, Except.pure]
  | cons step steps ih =>
    cases step with
    | error failure => simp [List.mapM_cons, planRule.failure?, bind, Except.bind]
    | ok x =>
      rw [List.filterMap_cons_none rfl, ← ih]
      cases later : steps.mapM id with
      | error failure => simp [List.mapM_cons, later, bind, Except.bind]
      | ok xs => simp [List.mapM_cons, later, bind, Except.bind, pure, Except.pure]

theorem exists_eq_ok_iff {ε α : Type} {step : Except ε α} :
    (∃ x, step = .ok x) ↔ planRule.failure? step = none := by
  cases step <;> simp [planRule.failure?]

/-- A binding that can be read is planned if all of its field paths lead to a field, and else it has
one fault for every path that does not. -/
theorem planRule_cases (name : String) (method : Method) (input : Message) (rule : Rule) :
    let failures := (rule.template.capturePaths ++ rule.body.path?.toList).filterMap
      (schema.unresolved? input)
    (failures = [] ∧ ∃ plan, schema.planRule name method input rule = .planned plan) ∨
      (failures ≠ [] ∧ schema.planRule name method input rule = .broken
        (failures.map fun (path, cause) => .unresolvedFieldPath name path cause)) := by
  intro failures
  have same : failures = _ := (schema.failures_eq input rule.template rule.body).symm
  rw [same, planRule]
  dsimp only
  split
  · next parts payload allParts itself =>
    refine Or.inl ⟨?_, _, rfl⟩
    have noPart := exists_mapM_id_eq_ok_iff.mp ⟨parts, allParts⟩
    have noBody := exists_eq_ok_iff.mp ⟨payload, itself⟩
    rw [noPart, noBody]
    rfl
  · next notAll =>
    refine Or.inr ⟨fun none => ?_, rfl⟩
    obtain ⟨noPart, noBody⟩ := List.append_eq_nil_iff.mp none
    obtain ⟨parts, allParts⟩ := exists_mapM_id_eq_ok_iff.mpr noPart
    obtain ⟨payload, itself⟩ := exists_eq_ok_iff.mpr (Option.toList_eq_nil_iff.mp noBody)
    exact notAll parts payload allParts itself

end Schema

namespace Service

variable {service : Service} {schema : Schema} {method : Method}

def faults (service : Service) (schema : Schema) (method : Method) : List GenerationError :=
  match method.boundBy? with
  | none => []
  | some binding => schema.faultsIn (service.methodName method) method.input binding

/-- Whether the client of the service has a function for a method. -/
def covers (service : Service) (schema : Schema) (method : Method) : Bool :=
  method.boundBy?.isSome && (service.faults schema method).isEmpty

/-- A method is left out if no binding is in force, planned if there is one without faults, and else
it has the faults of its binding. -/
theorem outcome_cases (service : Service) (schema : Schema) (method : Method) :
    (method.boundBy? = none ∧ service.outcome schema method = .leftOut) ∨
      (service.covers schema method = true ∧
        ∃ plan, service.outcome schema method = .planned plan) ∨
      (service.faults schema method ≠ [] ∧
        service.outcome schema method = .broken (service.faults schema method)) := by
  rw [outcome, covers, faults, Method.boundBy?]
  by_cases streams : (method.clientStreaming || method.serverStreaming) = true
  · simp [streams]
  rw [if_neg streams, if_neg streams]
  cases method.binding with
  | none => exact Or.inl ⟨rfl, rfl⟩
  | some binding =>
    cases kind : HttpMethod.ofKind? binding.kind with
    | none => exact Or.inl ⟨by simp [kind], by simp [Binding.rule?, kind]⟩
    | some verb =>
      have inForce : (some binding).filter
          (fun binding => (HttpMethod.ofKind? binding.kind).isSome) = some binding := by
        simp [kind]
      simp only [inForce, Binding.rule?, kind, Schema.faultsIn]
      refine Or.inr ?_
      cases Template.parse binding.path with
      | error cause => exact Or.inr ⟨by simp, rfl⟩
      | ok template =>
        cases BodySelector.parse binding.body with
        | error cause => exact Or.inr ⟨by simp, rfl⟩
        | ok body =>
          cases schema.message? method.input with
          | none => exact Or.inr ⟨by simp, rfl⟩
          | some input =>
            rcases schema.planRule_cases (service.methodName method) method input
              ⟨verb, template, body⟩ with ⟨none, planned⟩ | ⟨some, broken⟩
            · dsimp only at none
              exact Or.inl ⟨by simp [none], planned⟩
            · dsimp only at some
              exact Or.inr ⟨by simpa using some, broken⟩

theorem errors_outcome (service : Service) (schema : Schema) (method : Method) :
    (service.outcome schema method).errors = service.faults schema method := by
  rcases service.outcome_cases schema method with
    ⟨unbound, leftOut⟩ | ⟨covered, plan, planned⟩ | ⟨-, broken⟩
  · simp [leftOut, Outcome.errors, faults, unbound]
  · simp only [covers, Bool.and_eq_true, List.isEmpty_iff] at covered
    rw [planned, covered.2]
    rfl
  · rw [broken]
    rfl

/-- The faults of a service are those of its methods, in the order of the declaration. -/
theorem errors_eq_flatMap_faults (service : Service) (schema : Schema) :
    service.errors schema = service.methods.flatMap (service.faults schema) := by
  simp only [errors, outcomes, List.flatMap_map, errors_outcome]

/-- The plans of a service are for the methods that its client covers, in the same order. -/
theorem map_method_plans (service : Service) (schema : Schema) :
    (service.plans schema).map (·.method) = service.methods.filter (service.covers schema) := by
  simp only [plans, outcomes, List.filterMap_map]
  induction service.methods with
  | nil => rfl
  | cons method methods ih =>
    rcases service.outcome_cases schema method with
      ⟨unbound, leftOut⟩ | ⟨covered, plan, planned⟩ | ⟨faulty, broken⟩
    · have unplanned : (Outcome.plan? ∘ service.outcome schema) method = none := by
        simp [leftOut, Outcome.plan?]
      have uncovered : service.covers schema method = false := by simp [covers, unbound]
      rw [List.filterMap_cons_none unplanned, List.filter_cons_of_neg (by simp [uncovered]), ih]
    · have itsPlan : (Outcome.plan? ∘ service.outcome schema) method = some plan := by
        simp [planned, Outcome.plan?]
      rw [List.filterMap_cons_some itsPlan, List.filter_cons_of_pos covered, List.map_cons, ih,
        (method_and_input_of_planned planned).1]
    · have unplanned : (Outcome.plan? ∘ service.outcome schema) method = none := by
        simp [broken, Outcome.plan?]
      have uncovered : service.covers schema method = false := by simp [covers, faulty]
      rw [List.filterMap_cons_none unplanned, List.filter_cons_of_neg (by simp [uncovered]), ih]

/-- A method has no faults exactly if it is left out or all of its binding holds. -/
theorem faults_eq_nil_iff : service.faults schema method = [] ↔ schema.Accepts method := by
  rw [faults]
  constructor
  · intro faultless
    split at faultless
    · next unbound =>
      rcases Method.boundBy?_eq_none_iff.mp unbound with streams | absent | ⟨_, bound, unknown⟩
      · exact .streaming streams
      · exact .unbound absent
      · exact .unsupported bound unknown
    · next binding inForce =>
      obtain ⟨template, path, body, selector, input, found, resolves⟩ :=
        Schema.faultsIn_eq_nil_iff.mp faultless
      refine .resolved (Method.binding_of_boundBy? inForce) path selector found ?_ ?_
      · exact fun path listed => resolves path (List.mem_append_left _ listed)
      · exact fun path isBody =>
          resolves path (List.mem_append_right _ (BodySelector.mem_path?_iff.mpr isBody))
  · intro accepted
    split
    · rfl
    · next binding inForce =>
      have bound := Method.binding_of_boundBy? inForce
      have bindingInForce : method.boundBy? ≠ none := by simp [inForce]
      cases accepted with
      | streaming streams =>
        exact absurd (Method.boundBy?_eq_none_iff.mpr (Or.inl streams)) bindingInForce
      | unbound absent => cases bound.symm.trans absent
      | unsupported other unknown =>
        exact absurd (Method.boundBy?_eq_none_iff.mpr (Or.inr (Or.inr ⟨_, other, unknown⟩)))
          bindingInForce
      | resolved other path selector found captured field =>
        obtain rfl := Option.some.inj (bound.symm.trans other)
        refine Schema.faultsIn_eq_nil_iff.mpr ⟨_, path, _, selector, _, found, ?_⟩
        intro fieldPath listed
        rcases List.mem_append.mp listed with isVariable | isBody
        · exact captured fieldPath isVariable
        · exact field fieldPath (BodySelector.mem_path?_iff.mp isBody)

end Service

end HttpClientGen
