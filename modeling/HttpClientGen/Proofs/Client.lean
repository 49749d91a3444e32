import HttpClientGen.PackageFile
import HttpClientGen.Proofs.Demand

/-!
# Service code without a session

The code of a service is determined by the answers of the session, the options and the schema, and
where the answers are right by the options and the schema alone. The session that is carried through
its writing takes up the faults of the service, and apart from that it only remembers answers.
-/

namespace HttpClientGen

theorem Schema.method_and_input_of_planRule {schema : Schema} {name : String} {method : Method}
    {input : Message} {rule : Rule} {plan : MethodPlan}
    (planned : schema.planRule name method input rule = .planned plan) :
    plan.method = method ∧ plan.input = input := by
  simp only [planRule] at planned
  split at planned
  · obtain rfl := Outcome.planned.inj planned
    exact ⟨rfl, rfl⟩
  · cases planned

/-- The plan for a method is a plan for that method, and for its input as the schema has it. -/
theorem Service.method_and_input_of_planned {service : Service} {schema : Schema} {method : Method}
    {plan : MethodPlan} (planned : service.outcome schema method = .planned plan) :
    plan.method = method ∧ schema.message? method.input = some plan.input := by
  rw [outcome] at planned
  split at planned
  · cases planned
  · split at planned
    · cases planned
    · split at planned
      · cases planned
      · cases planned
      · split at planned
        · cases planned
        · next found =>
          obtain ⟨same, rfl⟩ := Schema.method_and_input_of_planRule planned
          exact ⟨same, found⟩

/-- Only methods of the service are planned, and only with an input that the schema has. -/
theorem Service.method_mem_and_input_of_mem_plans {service : Service} {schema : Schema}
    {plan : MethodPlan} (listed : plan ∈ service.plans schema) :
    plan.method ∈ service.methods ∧ schema.message? plan.method.input = some plan.input := by
  obtain ⟨outcome, member, planned⟩ := List.mem_filterMap.mp listed
  obtain ⟨method, isMethod, rfl⟩ := List.mem_map.mp member
  have same : service.outcome schema method = .planned plan := by
    cases reached : service.outcome schema method <;> simp_all [Outcome.plan?]
  obtain ⟨rfl, found⟩ := method_and_input_of_planned same
  exact ⟨isMethod, found⟩

namespace Viewpoint

variable {view : Viewpoint} {session : Session}

def signatureName (view : Viewpoint) (options : Options) (direction : Direction)
    (fullName : String) : String :=
  if !isWellKnown fullName && view.schema.discriminates fullName
    then view.variantName options direction fullName
    else view.messageName fullName

def signatureOf (view : Viewpoint) (options : Options) (plan : MethodPlan) : Signature where
  doc := .of plan.method.comments []
  name := plan.method.name
  input := view.signatureName options .request plan.method.input
  output := view.signatureName options .response plan.method.output

def functionOf (view : Viewpoint) (options : Options) (service : Service) (plan : MethodPlan) :
    ClientFunction where
  service := service.name
  method := plan.method.name
  verb := plan.verb
  path := plan.path
  payload := plan.payload
  query := plan.query view.schema
  output := view.signatureName options .response plan.method.output

def codeOf (view : Viewpoint) (options : Options) (service : Service) : ServiceCode where
  interface :=
    { doc := .of service.comments []
      name := service.name
      signatures := (service.plans view.schema).map (view.signatureOf options) }
  factory :=
    { service := service.name
      functions := (service.plans view.schema).map (view.functionOf options service) }
  plans := service.plans view.schema

def signatureTypeBy (view : Viewpoint) (separate : String → Bool) (options : Options)
    (direction : Direction) (fullName : String) : String :=
  if !isWellKnown fullName && separate fullName
    then view.variantName options direction fullName
    else view.messageName fullName

def signatureBy (view : Viewpoint) (separate : String → Bool) (options : Options)
    (plan : MethodPlan) : Signature where
  doc := .of plan.method.comments []
  name := plan.method.name
  input := view.signatureTypeBy separate options .request plan.method.input
  output := view.signatureTypeBy separate options .response plan.method.output

def functionBy (view : Viewpoint) (separate : String → Bool) (options : Options)
    (service : Service) (plan : MethodPlan) : ClientFunction where
  service := service.name
  method := plan.method.name
  verb := plan.verb
  path := plan.path
  payload := plan.payload
  query := plan.query view.schema
  output := view.signatureTypeBy separate options .response plan.method.output

def codeBy (view : Viewpoint) (separate : String → Bool) (options : Options) (service : Service) :
    ServiceCode where
  interface :=
    { doc := .of service.comments []
      name := service.name
      signatures := (service.plans view.schema).map (view.signatureBy separate options) }
  factory :=
    { service := service.name
      functions := (service.plans view.schema).map (view.functionBy separate options service) }
  plans := service.plans view.schema

theorem signatureType_eq (view : Viewpoint) (session : Session) (direction : Direction)
    (fullName : String) :
    (view.signatureType session direction fullName).1 = view.signatureTypeBy
        (session.memo.answer view.schema) session.options direction fullName ∧
      session.Consults view.schema (view.signatureType session direction fullName).2 := by
  have consults := session.ask_consults view.schema fullName
  have answer : (session.ask view.schema fullName).1 =
      session.memo.answer view.schema fullName := rfl
  rw [signatureType, signatureTypeBy]
  by_cases known : isWellKnown fullName = true
  · simp [known, Session.Consults.refl]
  · simp [known, answer, consults, consults.options]

theorem signatures_eq (view : Viewpoint) (session : Session) (plans : List MethodPlan) :
    (view.signatures session plans).1 =
        plans.map (view.signatureBy (session.memo.answer view.schema) session.options) ∧
      session.Consults view.schema (view.signatures session plans).2 := by
  induction plans generalizing session with
  | nil => exact ⟨rfl, .refl _ session⟩
  | cons plan plans ih =>
    obtain ⟨input, consults⟩ := view.signatureType_eq session .request plan.method.input
    obtain ⟨output, consults'⟩ := view.signatureType_eq
      (view.signatureType session .request plan.method.input).2 .response plan.method.output
    have both := consults.trans consults'
    obtain ⟨others, later⟩ := ih _
    rw [consults.answers, consults.options] at output
    rw [both.answers, both.options] at others
    refine ⟨?_, both.trans later⟩
    simp only [signatures, input, output, others, List.map_cons, signatureBy]

theorem functions_eq (view : Viewpoint) (session : Session) (service : Service)
    (plans : List MethodPlan) :
    (view.functions service session plans).1 = plans.map
        (view.functionBy (session.memo.answer view.schema) session.options service) ∧
      session.Consults view.schema (view.functions service session plans).2 := by
  induction plans generalizing session with
  | nil => exact ⟨rfl, .refl _ session⟩
  | cons plan plans ih =>
    obtain ⟨output, consults⟩ := view.signatureType_eq session .response plan.method.output
    obtain ⟨others, later⟩ := ih (view.signatureType session .response plan.method.output).2
    rw [consults.answers, consults.options] at others
    refine ⟨?_, consults.trans later⟩
    simp only [functions, output, others, List.map_cons, functionBy]

/-- Writing the code of a service reports its faults and claims nothing. The interface and the
factory get the same answers. -/
theorem serviceCode_eq (view : Viewpoint) (session : Session) (service : Service) :
    (view.serviceCode session service).1 =
        view.codeBy (session.memo.answer view.schema) session.options service ∧
      (session.report (service.errors view.schema)).Consults view.schema
        (view.serviceCode session service).2 := by
  let reported := session.report (service.errors view.schema)
  obtain ⟨signatures, consults⟩ := view.signatures_eq reported (service.plans view.schema)
  obtain ⟨functions, later⟩ := view.functions_eq
    (view.signatures reported (service.plans view.schema)).2 service (service.plans view.schema)
  rw [consults.answers, consults.options] at functions
  refine ⟨?_, consults.trans later⟩
  simp only [serviceCode, codeBy]
  rw [signatures, functions]
  rfl

/-- Where the answers are right, the code is the one that the schema determines. -/
theorem serviceCode_spec (sound : session.memo.Sound view.schema) (service : Service) :
    (view.serviceCode session service).1 = view.codeOf session.options service ∧
      (session.report (service.errors view.schema)).Recalls view.schema
        (view.serviceCode session service).2 := by
  obtain ⟨code, consults⟩ := view.serviceCode_eq session service
  rw [sound.answer_eq] at code
  exact ⟨code, consults.recalls sound⟩

theorem serviceCodes_spec (sound : session.memo.Sound view.schema) (services : List Service) :
    (view.serviceCodes session services).1 = services.map (view.codeOf session.options) ∧
      (session.report (services.flatMap (·.errors view.schema))).Recalls view.schema
        (view.serviceCodes session services).2 := by
  induction services generalizing session with
  | nil =>
    refine ⟨rfl, ⟨rfl, ?_, sound⟩, rfl⟩
    simp [serviceCodes, Session.report]
  | cons service services ih =>
    obtain ⟨first, recalls⟩ := serviceCode_spec sound service
    obtain ⟨others, later⟩ := ih recalls.sound
    refine ⟨?_, ⟨?_, ?_, later.sound⟩, ?_⟩
    · simp only [serviceCodes, first, others, recalls.options, List.map_cons]
      rfl
    · exact later.options.trans recalls.options
    · refine later.errors.trans ?_
      simp [Session.report, recalls.errors]
    · exact later.registry.trans recalls.registry

end Viewpoint

end HttpClientGen
