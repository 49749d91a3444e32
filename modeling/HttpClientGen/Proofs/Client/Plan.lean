import HttpClientGen.Proofs.Client.Outcome
import Mathlib.Data.List.Forall2

/-!
# What a plan is made of

A plan comes from a binding that can be read. Its path has a part for each segment of the template,
its payload is what the body selector selects, and every field that it accesses is the one to which
the field path leads. Each plan of a service has one client function, which takes over the path and
the payload and sends the remaining fields in the query.
-/

namespace HttpClientGen

/-- The parts of a path with their slashes, and the verb with its colon. -/
def pathOf (parts : List PathPart) (verb : Option String) : List PathPart :=
  parts.flatMap (fun part => [.text "/", part]) ++
    (verb.map fun verb => PathPart.text (":" ++ verb)).toList

namespace MethodPlan

/-- The plan sends what a template and a body selector say. -/
structure Realizes (plan : MethodPlan) (schema : Schema) (template : Template)
    (body : BodySelector) : Prop where
  path : ∃ parts, plan.path = pathOf parts template.verb ∧
    List.Forall₂ (fun segment part => schema.pathPart plan.input segment = .ok part)
      template.segments parts
  payload : schema.payload plan.input body = .ok plan.payload

def functionFor (plan : MethodPlan) (schema : Schema) (service : Service) (output : String) :
    ClientFunction where
  service := service.name
  method := plan.method.name
  verb := plan.verb
  path := plan.path
  payload := plan.payload
  query := plan.query schema
  output := output

end MethodPlan

namespace Schema

variable {schema : Schema}

theorem mapM_id_eq_ok_iff {ε α : Type} {steps : List (Except ε α)} {xs : List α} :
    steps.mapM id = .ok xs ↔ List.Forall₂ (fun step x => step = .ok x) steps xs := by
  induction steps generalizing xs with
  | nil => simp [pure, Except.pure, eq_comm]
  | cons step steps ih =>
    rw [List.mapM_cons, bind_eq_ok_iff, List.forall₂_cons_left_iff]
    refine exists_congr fun x => ?_
    rw [bind_eq_ok_iff]
    constructor
    · rintro ⟨first, others, later, ⟨⟩⟩
      exact ⟨others, first, ih.mp later, rfl⟩
    · rintro ⟨others, first, later, rfl⟩
      exact ⟨first, others, ih.mpr later, rfl⟩

theorem realizes_of_planRule {name : String} {method : Method} {input : Message} {rule : Rule}
    {plan : MethodPlan} (planned : schema.planRule name method input rule = .planned plan) :
    plan.Realizes schema rule.template rule.body := by
  rw [planRule] at planned
  dsimp only at planned
  split at planned
  · next parts payload allParts itself =>
    obtain rfl := Outcome.planned.inj planned
    refine ⟨⟨parts, rfl, ?_⟩, itself⟩
    exact List.forall₂_map_left_iff.mp (mapM_id_eq_ok_iff.mp allParts)
  · cases planned

/-- The fields along a path of names have these names. -/
theorem map_name_of_fieldsAlong {message : Message} {names : List String} {fields : List Field}
    (along : schema.fieldsAlong message names = .ok fields) :
    fields.map (·.name) = names ∧ fields ≠ [] := by
  induction names generalizing message fields with
  | nil => cases along
  | cons name names ih =>
    rw [fieldsAlong] at along
    split at along
    · cases along
    · next field found =>
      have named : field.name = name := by simpa using List.find?_some found
      split at along
      · obtain rfl := Except.ok.inj along
        exact ⟨by rw [← named]; rfl, by simp⟩
      · split at along
        · cases along
        · next inner nested =>
          obtain ⟨others, later, rfl⟩ := map_eq_ok_iff.mp along
          exact ⟨by rw [List.map_cons, (ih later).1, named], by simp⟩

/-- A field path leads to a field, and the path of the access is this path. -/
theorem path_of_resolve {message : Message} {path : FieldPath} {access : FieldAccess}
    (resolved : schema.resolve message path = .ok access) :
    access.path = path ∧ access.fields ≠ [] := by
  obtain ⟨fields, along, rfl⟩ := map_eq_ok_iff.mp resolved
  obtain ⟨names, nonempty⟩ := map_name_of_fieldsAlong along
  exact ⟨congrArg FieldPath.mk names, nonempty⟩

/-- A part of the path accesses the field of its segment, if there is one. -/
theorem rel_pathPart {input : Message} {segment : Segment} {part : PathPart}
    (resolved : schema.pathPart input segment = .ok part) :
    Option.Rel (fun path access => schema.resolve input path = .ok access) segment.path?
      part.access? := by
  cases segment with
  | capture path pattern =>
    rw [pathPart] at resolved
    split at resolved
    · next access found =>
      obtain rfl := Except.ok.inj resolved
      exact .some found
    · cases resolved
  | literal text =>
    obtain rfl := Except.ok.inj resolved
    exact .none
  | single =>
    obtain rfl := Except.ok.inj resolved
    exact .none
  | multiple =>
    obtain rfl := Except.ok.inj resolved
    exact .none

end Schema

namespace MethodPlan.Realizes

variable {plan : MethodPlan} {schema : Schema} {template : Template} {body : BodySelector}

theorem filterMap_pathOf (parts : List PathPart) (verb : Option String) :
    (pathOf parts verb).filterMap PathPart.access? = parts.filterMap PathPart.access? := by
  have noVerb : (verb.map fun verb => PathPart.text (":" ++ verb)).toList.filterMap
      PathPart.access? = [] := by
    cases verb <;> rfl
  rw [pathOf, List.filterMap_append, noVerb, List.append_nil, List.filterMap_flatMap,
    List.filterMap_eq_flatMap_toList]
  refine List.flatMap_congr fun part _ => ?_
  cases part <;> rfl

/-- The fields in the path are those of the template's variables, in their order. -/
theorem captures (realizes : plan.Realizes schema template body) :
    List.Forall₂ (fun path access => schema.resolve plan.input path = .ok access)
      template.capturePaths plan.captures := by
  obtain ⟨parts, path, resolved⟩ := realizes.path
  rw [MethodPlan.captures, path, filterMap_pathOf]
  exact List.rel_filterMap (fun _ _ part => Schema.rel_pathPart part) resolved

theorem map_path_captures (realizes : plan.Realizes schema template body) :
    plan.captures.map (·.path) = template.capturePaths := by
  have same := realizes.captures.imp fun _ _ resolved => (Schema.path_of_resolve resolved).1
  rw [← List.forall₂_eq_eq_eq, List.forall₂_map_left_iff]
  exact same.flip

theorem exists_resolve_of_mem_captures (realizes : plan.Realizes schema template body)
    {access : FieldAccess} (captured : access ∈ plan.captures) :
    ∃ path, schema.resolve plan.input path = .ok access := by
  have each {paths : List FieldPath} {accesses : List FieldAccess} (resolved : List.Forall₂
      (fun path access => schema.resolve plan.input path = .ok access) paths accesses) :
      ∀ access ∈ accesses, ∃ path, schema.resolve plan.input path = .ok access := by
    induction resolved with
    | nil => simp
    | cons first _ ih => exact List.forall_mem_cons.mpr ⟨⟨_, first⟩, ih⟩
  exact each realizes.captures access captured

/-- The payload is nothing, the whole request, or the field to which the selector leads. -/
theorem payload_cases (realizes : plan.Realizes schema template body) :
    (body = .none ∧ plan.payload = .nothing) ∨ (body = .whole ∧ plan.payload = .request) ∨
      ∃ path access, body = .field path ∧ plan.payload = .field access ∧
        schema.resolve plan.input path = .ok access := by
  have payload := realizes.payload
  cases body with
  | none => exact Or.inl ⟨rfl, (Except.ok.inj payload).symm⟩
  | whole => exact Or.inr (Or.inl ⟨rfl, (Except.ok.inj payload).symm⟩)
  | field path =>
    rw [Schema.payload] at payload
    split at payload
    · next access found =>
      exact Or.inr (Or.inr ⟨path, access, rfl, (Except.ok.inj payload).symm, found⟩)
    · cases payload

end MethodPlan.Realizes

namespace Service

variable {service : Service} {schema : Schema}

theorem realizes_of_planned {method : Method} {plan : MethodPlan}
    (planned : service.outcome schema method = .planned plan) :
    ∃ binding template body, method.binding = some binding ∧
      Template.parse binding.path = .ok template ∧
      BodySelector.parse binding.body = .ok body ∧ plan.Realizes schema template body := by
  rw [outcome] at planned
  split at planned
  · cases planned
  · split at planned
    · cases planned
    · next binding bound =>
      split at planned
      · cases planned
      · cases planned
      · next rule read =>
        split at planned
        · cases planned
        · have realizes := Schema.realizes_of_planRule planned
          rw [Binding.rule?] at read
          split at read
          · cases read
          · obtain ⟨template, path, read⟩ := bind_eq_ok_iff.mp read
            obtain ⟨body, selector, ⟨⟩⟩ := bind_eq_ok_iff.mp read
            exact ⟨binding, template, body, bound, path, selector, realizes⟩

/-- A plan of a service is one for a method of it, for the message that the method takes, and for a
binding that can be read. -/
theorem realizes_of_mem_plans {plan : MethodPlan} (listed : plan ∈ service.plans schema) :
    ∃ binding template body, plan.method ∈ service.methods ∧
      plan.method.binding = some binding ∧
      Template.parse binding.path = .ok template ∧
      BodySelector.parse binding.body = .ok body ∧
      schema.message? plan.method.input = some plan.input ∧
      plan.Realizes schema template body := by
  obtain ⟨isMethod, found⟩ := method_mem_and_input_of_mem_plans listed
  obtain ⟨outcome, member, isPlan⟩ := List.mem_filterMap.mp listed
  obtain ⟨method, -, rfl⟩ := List.mem_map.mp member
  have planned : service.outcome schema method = .planned plan := by
    cases reached : service.outcome schema method <;> simp_all [Outcome.plan?]
  obtain ⟨rfl, -⟩ := method_and_input_of_planned planned
  obtain ⟨binding, template, body, bound, path, selector, realizes⟩ := realizes_of_planned planned
  exact ⟨binding, template, body, isMethod, bound, path, selector, found, realizes⟩

end Service

namespace Viewpoint

theorem forall₂_functions (view : Viewpoint) (service : Service) (session : Session)
    (plans : List MethodPlan) :
    List.Forall₂ (fun plan function => ∃ output,
        function = plan.functionFor view.schema service output)
      plans (view.functions service session plans).1 := by
  induction plans generalizing session with
  | nil => exact .nil
  | cons plan plans ih => exact .cons ⟨_, rfl⟩ (ih _)

/-- What holds of each plan of a service and of the function for it holds of the functions in the
service's code, whatever session it is written in. -/
theorem forall₂_functions_of_plans (view : Viewpoint) (session : Session) (service : Service)
    {P : MethodPlan → ClientFunction → Prop}
    (each : ∀ plan ∈ service.plans view.schema, ∀ output,
      P plan (plan.functionFor view.schema service output)) :
    List.Forall₂ P (service.plans view.schema)
      (view.serviceCode session service).1.factory.functions := by
  have functions : (view.serviceCode session service).1.factory.functions =
      (view.functions service (view.signatures
        (session.report (service.errors view.schema)) (service.plans view.schema)).2
        (service.plans view.schema)).1 := rfl
  rw [functions]
  refine List.Forall₂.imp ?_ ((List.forall₂_and_left _ _).mpr
    ⟨each, view.forall₂_functions service _ _⟩)
  rintro plan _ ⟨holds, output, rfl⟩
  exact holds output

/-- The code of a service with one plan has one function. -/
theorem exists_functions_eq (view : Viewpoint) (session : Session) {service : Service}
    {plan : MethodPlan} (only : service.plans view.schema = [plan]) :
    ∃ output, (view.serviceCode session service).1.factory.functions =
      [plan.functionFor view.schema service output] := by
  have known := @forall₂_functions_of_plans view session service
    (fun plan function => ∃ output, function = plan.functionFor view.schema service output)
    fun plan _ output => ⟨output, rfl⟩
  rw [only] at known
  obtain ⟨_, _, ⟨output, rfl⟩, nothing, functions⟩ := List.forall₂_cons_left_iff.mp known
  cases nothing
  exact ⟨output, functions⟩

end Viewpoint

end HttpClientGen
