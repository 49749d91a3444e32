import HttpClientGen.Proofs.Agreement
import HttpClientGen.Proofs.PackageFile

/-!
# Output files over schemas that agree

A package looks alike from two schemas if these agree on what it can get to. Names, types, shapes,
demands and the code of services are then the same in both. Two runs over the same queue write the
same records if their states are alike for the package as well, and so the package has the same
output file.
-/

namespace HttpClientGen.Viewpoint

/-- Two views of one package, whose schemas agree on some names. -/
structure AgreesOn (first second : Viewpoint) (names : Set String) : Prop
    extends Schema.AgreesOn first.schema second.schema names where
  package : second.package = first.package

variable {first second : Viewpoint} {names : Set String} {options : Options}

theorem AgreesOn.refl (view : Viewpoint) : view.AgreesOn view Set.univ where
  messages _ _ := rfl
  enums _ _ := rfl
  closed _ _ _ _ ref _ := Set.mem_univ ref.fullName
  package := rfl

section Names

variable {fullName : String}

theorem AgreesOn.messageName_eq (agrees : first.AgreesOn second names)
    (inside : fullName ∈ names) : second.messageName fullName = first.messageName fullName := by
  simp only [messageName, localName, agrees.package, agrees.messages fullName inside]

theorem AgreesOn.enumName_eq (agrees : first.AgreesOn second names)
    (inside : fullName ∈ names) : second.enumName fullName = first.enumName fullName := by
  simp only [enumName, localName, agrees.package, agrees.enums fullName inside]

theorem AgreesOn.variantName_eq (agrees : first.AgreesOn second names)
    (inside : fullName ∈ names) (direction : Direction) :
    second.variantName options direction fullName =
      first.variantName options direction fullName := by
  rw [variantName, variantName, agrees.messageName_eq inside]

theorem AgreesOn.signatureName_eq (agrees : first.AgreesOn second names)
    (inside : fullName ∈ names) (direction : Direction) :
    second.signatureName options direction fullName =
      first.signatureName options direction fullName := by
  rw [signatureName, signatureName, agrees.discriminates_eq inside,
    agrees.variantName_eq inside, agrees.messageName_eq inside]

end Names

section Fields

variable {field : Field}

theorem AgreesOn.fieldType_eq (agrees : first.AgreesOn second names)
    (inside : ∀ ref, field.kind.ref? = some ref → ref.fullName ∈ names) :
    second.fieldType field = first.fieldType field := by
  rw [fieldType, fieldType, elementType, elementType]
  cases kind : field.kind with
  | scalar => rfl
  | enumeration fullName =>
    have member : fullName ∈ names := inside (.enumeration fullName) (by rw [kind]; rfl)
    simp only [agrees.enumName_eq member]
  | message fullName =>
    have member : fullName ∈ names := inside (.message fullName) (by rw [kind]; rfl)
    simp only [agrees.messageName_eq member]

theorem AgreesOn.separateTarget?_eq (agrees : first.AgreesOn second names)
    (inside : ∀ ref, field.kind.ref? = some ref → ref.fullName ∈ names) :
    second.separateTarget? field = first.separateTarget? field := by
  rw [separateTarget?, separateTarget?]
  cases aimed : field.kind.message? with
  | none => rfl
  | some fullName =>
    have member : fullName ∈ names := inside _ (FieldKind.ref?_of_message? aimed)
    simp only [Option.filter, agrees.discriminates_eq member]

theorem AgreesOn.shapeProperty_eq (agrees : first.AgreesOn second names)
    (inside : ∀ ref, field.kind.ref? = some ref → ref.fullName ∈ names) (direction : Direction) :
    second.shapeProperty options direction field = first.shapeProperty options direction field := by
  rw [shapeProperty, shapeProperty, agrees.separateTarget?_eq inside]
  cases target : first.separateTarget? field with
  | none => rw [agrees.fieldType_eq inside]
  | some fullName =>
    obtain ⟨kind, -⟩ := separateTarget?_eq_some_iff.mp target
    have member : fullName ∈ names := inside (.message fullName) (by rw [kind]; rfl)
    dsimp only
    rw [agrees.variantName_eq member]

end Fields

/-- The fields of a message that is found inside mention nothing else. -/
theorem AgreesOn.field_inside (agrees : first.AgreesOn second names) {name : String}
    (inside : name ∈ names) {message : Message} (found : first.schema.message? name = some message)
    {field : Field} (held : field ∈ message.fields) :
    ∀ ref, field.kind.ref? = some ref → ref.fullName ∈ names :=
  fun ref mentioned => agrees.closed name inside message found ref
    (Message.ref_mem_refs held mentioned)

section Demands

variable {usage : Usage} {message : Message}

theorem AgreesOn.defaultDemand_eq (agrees : first.AgreesOn second names)
    (inside : usage.message ∈ names)
    (found : first.schema.message? usage.message = some message) :
    second.defaultDemand message = first.defaultDemand message := by
  have properties : message.fields.map (fun field =>
        Property.mk field.doc field.jsonName false (second.fieldType field)) =
      message.fields.map fun field => ⟨field.doc, field.jsonName, false, first.fieldType field⟩ :=
    List.map_congr_left fun field held => by
      rw [agrees.fieldType_eq (agrees.field_inside inside found held)]
  rw [← Schema.fullName_of_message? found] at inside
  rw [defaultDemand, defaultDemand, defaultRecord, defaultRecord, properties,
    agrees.messageName_eq inside]

theorem AgreesOn.directedDemand_eq (agrees : first.AgreesOn second names)
    (inside : usage.message ∈ names)
    (found : first.schema.message? usage.message = some message) (direction : Direction) :
    second.directedDemand options usage message direction =
      first.directedDemand options usage message direction := by
  have held {field : Field} (listed : field ∈ message.fieldsIn direction) :=
    agrees.field_inside inside found (List.mem_of_mem_filter listed)
  have properties : (message.fieldsIn direction).map (second.shapeProperty options direction) =
      (message.fieldsIn direction).map (first.shapeProperty options direction) :=
    List.map_congr_left fun field listed => agrees.shapeProperty_eq (held listed) direction
  have targets : second.shapeTargets direction message = first.shapeTargets direction message :=
    List.filterMap_congr fun field listed => agrees.separateTarget?_eq (held listed)
  rw [← Schema.fullName_of_message? found] at inside
  rw [directedDemand, directedDemand, shape, shape, properties, targets,
    agrees.variantName_eq inside]

theorem AgreesOn.demands_eq (agrees : first.AgreesOn second names)
    (inside : usage.message ∈ names) :
    second.demands options usage = first.demands options usage := by
  rw [demands, demands, agrees.messages _ inside]
  cases found : first.schema.message? usage.message with
  | none => rfl
  | some message =>
    simp only [agrees.discriminates_eq inside, shapeDemand, agrees.defaultDemand_eq inside found,
      agrees.directedDemand_eq inside found]

/-- What is demanded inside asks for messages inside in turn. -/
theorem AgreesOn.pending_mem (agrees : first.AgreesOn second names)
    (inside : usage.message ∈ names) {demand : Demand} {other : Usage}
    (demanded : demand ∈ first.demands options usage) (pending : other ∈ demand.pending) :
    other.message ∈ names := by
  obtain ⟨message, found, -, -, direction, -, field, held, separate, -⟩ :=
    exists_field_of_pending demanded pending
  obtain ⟨kind, -, -⟩ := separateTarget?_eq_some_iff.mp separate
  exact agrees.field_inside inside found (List.mem_of_mem_filter held) (.message other.message)
    (by rw [kind]; rfl)

end Demands

section Runs

variable {session other : Session}

/-- States that are alike stay alike when the same entry is written, and give the same. -/
theorem write_alike (agrees : first.AgreesOn second names)
    (alike : session.Alike first.schema second.schema first.package other) {usage : Usage}
    (inside : usage.message ∈ names) :
    (second.write other usage).records = (first.write session usage).records ∧
      (second.write other usage).pending = (first.write session usage).pending ∧
      (first.write session usage).session.Alike first.schema second.schema first.package
        (second.write other usage).session := by
  have inFirst := write_gives alike.firstSound usage
  have inSecond := write_gives alike.secondSound usage
  rw [alike.options, agrees.demands_eq inside] at inSecond
  obtain ⟨granted, owners⟩ := Registry.grant_congr alike.owners
    (first.demands session.options usage)
  refine ⟨?_, ?_, ?_, ?_, inFirst.keeps.sound, inSecond.keeps.sound⟩
  · rw [inFirst.records, inSecond.records, agrees.package, granted]
  · rw [inFirst.pending, inSecond.pending, agrees.package, granted]
  · rw [inFirst.keeps.options, inSecond.keeps.options, alike.options]
  · intro name
    rw [inFirst.registry, inSecond.registry, agrees.package, owners]

theorem pending_write_mem (agrees : first.AgreesOn second names)
    (sound : session.memo.Sound first.schema) {usage : Usage} (inside : usage.message ∈ names) :
    ∀ pending ∈ (first.write session usage).pending, pending.message ∈ names := by
  intro pending listed
  rw [(write_gives sound usage).pending] at listed
  obtain ⟨demand, granted, passed⟩ := List.mem_flatMap.mp listed
  exact agrees.pending_mem inside (Registry.mem_of_mem_grant granted) passed

theorem writeAll_alike (agrees : first.AgreesOn second names) (queue : List Usage)
    (other : Session) (alike : session.Alike first.schema second.schema first.package other)
    (inside : ∀ usage ∈ queue, usage.message ∈ names) :
    (second.writeAll other queue).1 = (first.writeAll session queue).1 ∧
      (first.writeAll session queue).2.Alike first.schema second.schema first.package
        (second.writeAll other queue).2 := by
  fun_induction writeAll first session queue generalizing other with
  | case1 session =>
    rw [writeAll]
    exact ⟨rfl, alike⟩
  | case2 session usage queue written records after rest ih =>
    obtain ⟨here, later⟩ := List.forall_mem_cons.mp inside
    obtain ⟨sameRecords, samePending, still⟩ := write_alike agrees alike here
    have insideNext : ∀ usage ∈ queue ++ written.pending, usage.message ∈ names := by
      intro usage listed
      rcases List.mem_append.mp listed with waiting | pending
      · exact later usage waiting
      · exact pending_write_mem agrees alike.firstSound here usage pending
    obtain ⟨same, alikeAfter⟩ := ih _ still insideNext
    rw [rest] at same alikeAfter
    rw [writeAll]
    simp only [sameRecords, samePending]
    exact ⟨congrArg (written.records ++ ·) same, alikeAfter⟩

/-- What is written into a unit does not depend on anything that `Alike` leaves out. -/
theorem synthesizeAll_alike (agrees : first.AgreesOn second names)
    (alike : session.Alike first.schema second.schema first.package other)
    {usages : List Usage} (inside : ∀ usage ∈ usages, usage.message ∈ names) :
    (second.synthesizeAll other usages).1 = (first.synthesizeAll session usages).1 ∧
      (first.synthesizeAll session usages).2.Alike first.schema second.schema first.package
        (second.synthesizeAll other usages).2 := by
  induction usages generalizing session other with
  | nil => exact ⟨rfl, alike⟩
  | cons usage usages ih =>
    obtain ⟨here, later⟩ := List.forall_mem_cons.mp inside
    obtain ⟨sameFirst, still⟩ := writeAll_alike agrees [usage] other alike (by simpa using here)
    obtain ⟨sameRest, alikeAfter⟩ := ih still later
    refine ⟨?_, alikeAfter⟩
    simp only [synthesizeAll, synthesize, sameFirst, sameRest]

end Runs

section Files

variable {files : List SchemaFile}

/-- Everything that some files declare, and the inputs and outputs of their methods, lies inside. -/
def Inside (names : Set String) (files : List SchemaFile) : Prop :=
  ∀ file ∈ files, ∀ ref ∈ file.declaredRefs ++ file.methodRefs, ref.fullName ∈ names

theorem Inside.method_mem (inside : Inside names files) {service : Service}
    (listed : service ∈ files.flatMap (·.services)) {method : Method}
    (isMethod : method ∈ service.methods) : method.input ∈ names ∧ method.output ∈ names := by
  obtain ⟨file, isFile, inFile⟩ := List.mem_flatMap.mp listed
  have mentioned (ref : TypeRef) (used : ref ∈ [.message method.input, .message method.output]) :
      ref ∈ file.declaredRefs ++ file.methodRefs :=
    List.mem_append_right _ (List.mem_flatMap.mpr ⟨service, inFile,
      List.mem_flatMap.mpr ⟨method, isMethod, used⟩⟩)
  exact ⟨inside file isFile (.message method.input) (mentioned _ (by simp)),
    inside file isFile (.message method.output) (mentioned _ (by simp))⟩

theorem AgreesOn.codeOf_eq (agrees : first.AgreesOn second names) (inside : Inside names files)
    {service : Service} (listed : service ∈ files.flatMap (·.services)) :
    second.codeOf options service = first.codeOf options service := by
  have plans : service.plans second.schema = service.plans first.schema := by
    rw [Service.plans, Service.plans,
      agrees.outcomes_eq fun method isMethod => (inside.method_mem listed isMethod).1]
  have each {plan : MethodPlan} (planned : plan ∈ service.plans first.schema) :
      second.signatureOf options plan = first.signatureOf options plan ∧
        second.functionOf options service plan = first.functionOf options service plan := by
    obtain ⟨isMethod, found⟩ := Service.method_mem_and_input_of_mem_plans planned
    obtain ⟨input, output⟩ := inside.method_mem listed isMethod
    rw [signatureOf, functionOf, agrees.signatureName_eq input, agrees.signatureName_eq output,
      agrees.query_eq input found]
    exact ⟨rfl, rfl⟩
  have signatures : (service.plans first.schema).map (second.signatureOf options) =
      (service.plans first.schema).map (first.signatureOf options) :=
    List.map_congr_left fun plan planned => (each planned).1
  have functions : (service.plans first.schema).map (second.functionOf options service) =
      (service.plans first.schema).map (first.functionOf options service) :=
    List.map_congr_left fun plan planned => (each planned).2
  rw [codeOf, codeOf, plans, signatures, functions]

theorem AgreesOn.codesOf_eq (agrees : first.AgreesOn second names) (inside : Inside names files) :
    second.codesOf options files = first.codesOf options files :=
  List.map_congr_left fun _ listed => agrees.codeOf_eq inside listed

theorem AgreesOn.faultsOf_eq (agrees : first.AgreesOn second names) (inside : Inside names files) :
    second.schema.faultsOf files = first.schema.faultsOf files :=
  List.flatMap_congr fun service listed => by
    rw [Service.errors, Service.errors,
      agrees.outcomes_eq fun method isMethod => (inside.method_mem listed isMethod).1]

theorem Inside.queue_mem (inside : Inside names files) :
    ∀ ref ∈ files.flatMap SchemaFile.declaredRefs ++ files.flatMap SchemaFile.methodRefs,
      ref.fullName ∈ names := by
  intro ref listed
  rcases List.mem_append.mp listed with declared | method
  · obtain ⟨file, isFile, declared⟩ := List.mem_flatMap.mp declared
    exact inside file isFile ref (List.mem_append_left _ declared)
  · obtain ⟨file, isFile, method⟩ := List.mem_flatMap.mp method
    exact inside file isFile ref (List.mem_append_right _ method)

theorem AgreesOn.contents_eq (agrees : first.AgreesOn second names) (inside : Inside names files) :
    second.schema.contents files = first.schema.contents files := by
  rw [Schema.contents, Schema.contents, agrees.contentsOf_eq [] inside.queue_mem]

theorem AgreesOn.mem_of_mem_contents (agrees : first.AgreesOn second names)
    (inside : Inside names files) :
    (∀ message ∈ (first.schema.contents files).messages, message.fullName ∈ names) ∧
      ∀ enumeration ∈ (first.schema.contents files).enums, enumeration.fullName ∈ names :=
  agrees.mem_of_mem_contentsOf [] inside.queue_mem

theorem Inside.methodUsages_mem (inside : Inside names files) (view : Viewpoint)
    (options : Options) : ∀ usage ∈ view.methodUsages options files, usage.message ∈ names := by
  intro usage used
  obtain ⟨service, listed, plan, planned, member⟩ := mem_methodUsages_iff.mp used
  obtain ⟨input, output⟩ :=
    inside.method_mem listed (Service.method_mem_and_input_of_mem_plans planned).1
  rcases List.mem_pair.mp member with rfl | rfl
  · exact input
  · exact output

/-- In states that are alike, schemas that agree give a package the same output file. -/
theorem packageFile_alike (agrees : first.AgreesOn second names) (inside : Inside names files)
    {session other : Session}
    (alike : session.Alike first.schema second.schema first.package other) :
    (second.packageFile other files).1 = (first.packageFile session files).1 := by
  have contents := agrees.contents_eq inside
  obtain ⟨messages, enums⟩ := agrees.mem_of_mem_contents inside
  have unions := List.map_congr_left fun enumeration listed =>
    congrArg (UnionType.ofEnumeration · enumeration)
      (agrees.enumName_eq (enums enumeration listed))
  have declaredInside : ∀ usage ∈ first.declaredUsages files, usage.message ∈ names := by
    intro usage listed
    obtain ⟨message, isListed, rfl⟩ := List.mem_map.mp listed
    exact messages message isListed
  have sameDeclared : second.declaredUsages files = first.declaredUsages files := by
    rw [declaredUsages, declaredUsages, contents]
  obtain ⟨declared, afterDeclared⟩ := synthesizeAll_alike agrees alike declaredInside
  obtain ⟨codes, recalls⟩ :=
    serviceCodes_spec afterDeclared.firstSound (files.flatMap (·.services))
  obtain ⟨codes', recalls'⟩ :=
    serviceCodes_spec afterDeclared.secondSound (files.flatMap (·.services))
  rw [afterDeclared.options] at codes'
  have sameCodes := codes'.trans ((agrees.codesOf_eq inside).trans codes.symm)
  have usagesInside := inside.methodUsages_mem first
    (first.synthesizeAll session (first.declaredUsages files)).2.options
  rw [methodUsages, codesOf, ← codes] at usagesInside
  obtain ⟨needed, -⟩ :=
    synthesizeAll_alike agrees (afterDeclared.of_recalls recalls recalls') usagesInside
  rw [packageFile_eq, packageFile_eq]
  simp only [sameDeclared, declared, contents, sameCodes, needed, unions]

end Files

end HttpClientGen.Viewpoint
