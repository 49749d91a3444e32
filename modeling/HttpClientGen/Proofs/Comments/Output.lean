import HttpClientGen.Generation
import HttpClientGen.Proofs.Comments.Erasure

/-!
# Outputs without comments

What a run over a schema without its comments gives differs from the output for the schema only in
the lines that documentation takes over from comments. Step by step, both runs go through the same
sessions, so no comment has a part in any name, any type or any code.
-/

namespace HttpClientGen

/-!
Documentation keeps what it says about behaviours, and loses the lines that it has from a comment.
Whatever holds documentation, or fields of the schema, is erased part by part.
-/

section Erasure

def DocComment.uncommented (doc : DocComment) : DocComment :=
  { doc with lines := [] }

def Property.uncommented (property : Property) : Property :=
  { property with doc := property.doc.uncommented }

def RecordType.uncommented (type : RecordType) : RecordType :=
  { type with
    doc := type.doc.uncommented
    properties := type.properties.map Property.uncommented }

def UnionMember.uncommented (member : UnionMember) : UnionMember :=
  { member with doc := member.doc.uncommented }

def UnionType.uncommented (type : UnionType) : UnionType :=
  { type with
    doc := type.doc.uncommented
    members := type.members.map UnionMember.uncommented }

def Signature.uncommented (signature : Signature) : Signature :=
  { signature with doc := signature.doc.uncommented }

def ServiceInterface.uncommented (interface : ServiceInterface) : ServiceInterface :=
  { interface with
    doc := interface.doc.uncommented
    signatures := interface.signatures.map Signature.uncommented }

def ClientFunction.uncommented (function : ClientFunction) : ClientFunction :=
  { function with
    path := function.path.map PathPart.uncommented
    payload := function.payload.uncommented
    query := function.query.map FieldAccess.uncommented }

def ClientFactory.uncommented (factory : ClientFactory) : ClientFactory :=
  { factory with functions := factory.functions.map ClientFunction.uncommented }

def ServiceCode.uncommented (code : ServiceCode) : ServiceCode where
  interface := code.interface.uncommented
  factory := code.factory.uncommented
  plans := code.plans.map MethodPlan.uncommented

def PackageFile.uncommented (file : PackageFile) : PackageFile :=
  { file with
    enums := file.enums.map UnionType.uncommented
    messages := file.messages.map RecordType.uncommented
    services := file.services.map ServiceCode.uncommented
    variants := file.variants.map RecordType.uncommented }

def PackageOutput.uncommented (output : PackageOutput) : PackageOutput :=
  { output with file := output.file.uncommented }

def Written.uncommented (written : Written) : Written :=
  { written with records := written.records.map RecordType.uncommented }

def Viewpoint.uncommented (view : Viewpoint) : Viewpoint :=
  { view with schema := view.schema.uncommented }

end Erasure

theorem UnionType.ofEnumeration_uncommented (name : String) (enumeration : Enumeration) :
    ofEnumeration name enumeration.uncommented = (ofEnumeration name enumeration).uncommented := by
  rw [ofEnumeration, Enumeration.uncommented, List.map_map, uncommented, ofEnumeration,
    List.map_map]
  rfl

theorem FieldAccess.path_uncommented (access : FieldAccess) :
    access.uncommented.path = access.path := by
  rw [path, uncommented, List.map_map]
  rfl

theorem filterMap_access?_uncommented (parts : List PathPart) :
    (parts.map PathPart.uncommented).filterMap PathPart.access? =
      (parts.filterMap PathPart.access?).map FieldAccess.uncommented := by
  rw [List.filterMap_map, List.map_filterMap]
  exact List.filterMap_congr fun part _ => by cases part <;> rfl

namespace MethodPlan

variable (plan : MethodPlan)

theorem captures_uncommented :
    plan.uncommented.captures = plan.captures.map FieldAccess.uncommented :=
  filterMap_access?_uncommented plan.path

theorem sends_uncommented (leaf : FieldAccess) :
    plan.uncommented.sends leaf.uncommented = plan.sends leaf := by
  rw [sends, sends, captures_uncommented, List.any_map]
  simp only [Function.comp_def, FieldAccess.path_uncommented, uncommented]
  cases plan.payload with
  | nothing => rfl
  | request => rfl
  | field access => simp only [Payload.uncommented, FieldAccess.path_uncommented]

theorem query_uncommented (schema : Schema) :
    plan.uncommented.query schema.uncommented =
      (plan.query schema).map FieldAccess.uncommented := by
  have input : plan.uncommented.input = plan.input.uncommented := rfl
  have kept : (schema.uncommented.queryLeaves plan.uncommented.input).filter
      (!plan.uncommented.sends ·) =
        ((schema.queryLeaves plan.input).filter (!plan.sends ·)).map FieldAccess.uncommented := by
    rw [input, Schema.queryLeaves_uncommented, List.filter_map]
    simp only [Function.comp_def, sends_uncommented]
  rw [query, query, kept]
  cases payload : plan.payload <;> simp [uncommented, payload, Payload.uncommented]

end MethodPlan

@[simp]
theorem Session.ask_uncommented (session : Session) (schema : Schema) (fullName : String) :
    session.ask schema.uncommented fullName = session.ask schema fullName := by
  simp only [ask, Memo.ask, Schema.message?_uncommented, Schema.discriminates_uncommented]
  cases schema.message? fullName <;> rfl

namespace Viewpoint

variable {view : Viewpoint}

@[simp]
theorem uncommented_schema : view.uncommented.schema = view.schema.uncommented :=
  rfl

@[simp]
theorem uncommented_package : view.uncommented.package = view.package :=
  rfl

section Names

variable (fullName : String)

@[simp]
theorem messageName_uncommented :
    view.uncommented.messageName fullName = view.messageName fullName := by
  rw [messageName, messageName, uncommented, Schema.message?_uncommented, Option.map_map]
  rfl

@[simp]
theorem enumName_uncommented : view.uncommented.enumName fullName = view.enumName fullName := by
  rw [enumName, enumName, uncommented, Schema.enum?_uncommented, Option.map_map]
  rfl

@[simp]
theorem variantName_uncommented (options : Options) (direction : Direction) :
    view.uncommented.variantName options direction fullName =
      view.variantName options direction fullName := by
  rw [variantName, variantName, messageName_uncommented]

end Names

section Shapes

theorem fieldType_uncommented (field : Field) :
    view.uncommented.fieldType field.uncommented = view.fieldType field := by
  simp only [fieldType, elementType, messageName_uncommented, enumName_uncommented]
  rfl

theorem defaultRecord_uncommented (message : Message) :
    view.uncommented.defaultRecord message.uncommented =
      (view.defaultRecord message).uncommented := by
  have properties : message.uncommented.fields.map (fun field =>
        Property.mk field.doc field.jsonName false (view.uncommented.fieldType field)) =
      (message.fields.map fun field =>
        Property.mk field.doc field.jsonName false (view.fieldType field)).map
          Property.uncommented := by
    rw [Message.uncommented, List.map_map, List.map_map]
    refine List.map_congr_left fun field _ => ?_
    rw [Function.comp_apply, fieldType_uncommented]
    rfl
  rw [defaultRecord, properties, messageName_uncommented]
  rfl

theorem variantTarget_uncommented (session : Session) (field : Field) :
    view.uncommented.variantTarget session field.uncommented =
      view.variantTarget session field := by
  simp only [variantTarget, uncommented, Session.ask_uncommented]
  rfl

theorem variantProperty_uncommented (direction : Direction) (session : Session) (field : Field) :
    view.uncommented.variantProperty direction session field.uncommented =
      let given := view.variantProperty direction session field
      ((given.1.1.uncommented, given.1.2), given.2) := by
  simp only [variantProperty, variantTarget_uncommented, variantName_uncommented,
    fieldType_uncommented]
  rfl

theorem variantProperties_uncommented (direction : Direction) (session : Session)
    (fields : List Field) :
    view.uncommented.variantProperties direction session (fields.map Field.uncommented) =
      let given := view.variantProperties direction session fields
      ((given.1.1.map Property.uncommented, given.1.2), given.2) := by
  induction fields generalizing session with
  | nil => rfl
  | cons field fields ih =>
    simp only [List.map_cons, variantProperties, variantProperty_uncommented, ih]

theorem variantRecord_uncommented (direction : Direction) (session : Session) (message : Message) :
    view.uncommented.variantRecord direction session message.uncommented =
      let given := view.variantRecord direction session message
      ((given.1.1.uncommented, given.1.2), given.2) := by
  simp only [variantRecord, Message.fieldsIn_uncommented, variantProperties_uncommented,
    variantName_uncommented]
  rfl

end Shapes

section Runs

variable (session : Session)

theorem writeDefault_uncommented (message : Message) :
    view.uncommented.writeDefault session message.uncommented =
      (view.writeDefault session message).uncommented := by
  have named : message.uncommented.fullName = message.fullName := rfl
  simp only [writeDefault, named, uncommented_package, messageName_uncommented,
    defaultRecord_uncommented]
  split <;> rfl

theorem writeVariant_uncommented (usage : Usage) (message : Message) (direction : Direction) :
    view.uncommented.writeVariant session usage message.uncommented direction =
      (view.writeVariant session usage message direction).uncommented := by
  have named : message.uncommented.fullName = message.fullName := rfl
  simp only [writeVariant, named, uncommented_package, variantName_uncommented,
    variantRecord_uncommented]
  split
  · split <;> rfl
  · rfl

theorem write_uncommented (usage : Usage) :
    view.uncommented.write session usage = (view.write session usage).uncommented := by
  simp only [write, uncommented_schema, Schema.message?_uncommented, Session.ask_uncommented]
  cases view.schema.message? usage.message with
  | none => rfl
  | some message =>
    simp only [Option.map_some, writeVariant_uncommented, writeDefault_uncommented]
    split
    · rfl
    · split
      · split
        · simp only [Written.uncommented, List.map_append]
        · rfl
      · rfl

theorem writeAll_uncommented (queue : List Usage) :
    view.uncommented.writeAll session queue =
      ((view.writeAll session queue).1.map RecordType.uncommented,
        (view.writeAll session queue).2) := by
  fun_induction writeAll view session queue with
  | case1 session => rw [writeAll, List.map_nil]
  | case2 session usage queue written records after rest ih =>
    rw [rest] at ih
    -- the erased entry asks for the same messages in the same session, so the recursion fits
    have same : view.uncommented.writeAll (view.write session usage).uncommented.session
        (queue ++ (view.write session usage).uncommented.pending) =
          (records.map RecordType.uncommented, after) := ih
    rw [writeAll, write_uncommented, same, List.map_append]
    rfl

theorem synthesizeAll_uncommented (usages : List Usage) :
    view.uncommented.synthesizeAll session usages =
      ((view.synthesizeAll session usages).1.map RecordType.uncommented,
        (view.synthesizeAll session usages).2) := by
  induction usages generalizing session with
  | nil => rfl
  | cons usage usages ih =>
    simp only [synthesizeAll, synthesize, writeAll_uncommented, ih, List.map_append]

end Runs

section Services

variable (session : Session)

theorem signatureType_uncommented (direction : Direction) (fullName : String) :
    view.uncommented.signatureType session direction fullName =
      view.signatureType session direction fullName := by
  simp only [signatureType, uncommented_schema, messageName_uncommented, Session.ask_uncommented,
    variantName_uncommented]

theorem signatures_uncommented (plans : List MethodPlan) :
    view.uncommented.signatures session (plans.map MethodPlan.uncommented) =
      ((view.signatures session plans).1.map Signature.uncommented,
        (view.signatures session plans).2) := by
  induction plans generalizing session with
  | nil => rfl
  | cons plan plans ih =>
    have input : plan.uncommented.method.input = plan.method.input := rfl
    have output : plan.uncommented.method.output = plan.method.output := rfl
    simp only [List.map_cons, signatures, input, output, signatureType_uncommented, ih]
    rfl

theorem functions_uncommented (service : Service) (plans : List MethodPlan) :
    view.uncommented.functions service.uncommented session (plans.map MethodPlan.uncommented) =
      ((view.functions service session plans).1.map ClientFunction.uncommented,
        (view.functions service session plans).2) := by
  induction plans generalizing session with
  | nil => rfl
  | cons plan plans ih =>
    have output : plan.uncommented.method.output = plan.method.output := rfl
    simp only [List.map_cons, functions, output, signatureType_uncommented, ih,
      uncommented_schema, MethodPlan.query_uncommented]
    rfl

theorem serviceCode_uncommented (service : Service) :
    view.uncommented.serviceCode session service.uncommented =
      ((view.serviceCode session service).1.uncommented, (view.serviceCode session service).2) := by
  simp only [serviceCode, uncommented_schema, Service.plans_uncommented,
    Service.errors_uncommented, signatures_uncommented, functions_uncommented]
  rfl

theorem serviceCodes_uncommented (services : List Service) :
    view.uncommented.serviceCodes session (services.map Service.uncommented) =
      ((view.serviceCodes session services).1.map ServiceCode.uncommented,
        (view.serviceCodes session services).2) := by
  induction services generalizing session with
  | nil => rfl
  | cons service services ih =>
    simp only [List.map_cons, serviceCodes, serviceCode_uncommented, ih]

theorem packageFile_uncommented (files : List SchemaFile) :
    view.uncommented.packageFile session (files.map SchemaFile.uncommented) =
      ((view.packageFile session files).1.uncommented, (view.packageFile session files).2) := by
  have declared : ((view.schema.contents files).uncommented.messages.map fun message =>
      Usage.mk message.fullName false false) =
        (view.schema.contents files).messages.map fun message => ⟨message.fullName, false, false⟩ := by
    rw [Contents.uncommented, List.map_map]
    rfl
  have services : (files.map SchemaFile.uncommented).flatMap (·.services) =
      (files.flatMap (·.services)).map Service.uncommented := by
    rw [List.flatMap_map, List.map_flatMap]
    rfl
  have usages (codes : List ServiceCode) :
      (plansOf (codes.map ServiceCode.uncommented)).flatMap planUsages =
        (plansOf codes).flatMap planUsages := by
    have plans : plansOf (codes.map ServiceCode.uncommented) =
        (plansOf codes).map MethodPlan.uncommented := by
      rw [plansOf, plansOf, List.flatMap_map, List.map_flatMap]
      rfl
    rw [plans, List.flatMap_map]
    rfl
  have unions : (view.schema.contents files).uncommented.enums.map (fun enumeration =>
      UnionType.ofEnumeration (view.uncommented.enumName enumeration.fullName) enumeration) =
        ((view.schema.contents files).enums.map fun enumeration =>
          UnionType.ofEnumeration (view.enumName enumeration.fullName) enumeration).map
            UnionType.uncommented := by
    rw [Contents.uncommented, List.map_map, List.map_map]
    refine List.map_congr_left fun enumeration _ => ?_
    rw [Function.comp_apply, enumName_uncommented, UnionType.ofEnumeration_uncommented]
    rfl
  simp only [packageFile, uncommented_schema, Schema.contents_uncommented, declared, services,
    synthesizeAll_uncommented, serviceCodes_uncommented, usages, unions]
  rfl

end Services

end Viewpoint

namespace Schema

variable (schema : Schema)

theorem requestedFiles_uncommented (requested : List String) :
    schema.uncommented.requestedFiles requested =
      (schema.requestedFiles requested).map (List.map SchemaFile.uncommented) := by
  induction requested with
  | nil => rfl
  | cons name names ih =>
    rw [requestedFiles, requestedFiles, file?_uncommented]
    cases schema.file? name with
    | none => rfl
    | some file =>
      simp only [Option.map_some, ih]
      cases schema.requestedFiles names <;> rfl

theorem packageOutput_uncommented (files : List SchemaFile) (session : Session)
    (package : String) :
    schema.uncommented.packageOutput (files.map SchemaFile.uncommented) session package =
      ((schema.packageOutput files session package).1.uncommented,
        (schema.packageOutput files session package).2) := by
  let view : Viewpoint := ⟨schema, package⟩
  have own : (files.map SchemaFile.uncommented).filter (·.package = package) =
      (files.filter (·.package = package)).map SchemaFile.uncommented := by
    rw [List.filter_map]
    rfl
  have same := view.packageFile_uncommented session (files.filter (·.package = package))
  rw [packageOutput, own]
  exact congrArg (fun written => (PackageOutput.mk package written.1, written.2)) same

theorem packageOutputs_uncommented (files : List SchemaFile) (session : Session)
    (packages : List String) :
    schema.uncommented.packageOutputs (files.map SchemaFile.uncommented) session packages =
      ((schema.packageOutputs files session packages).1.map PackageOutput.uncommented,
        (schema.packageOutputs files session packages).2) := by
  induction packages generalizing session with
  | nil => rfl
  | cons package packages ih => simp only [packageOutputs, packageOutput_uncommented, ih, List.map_cons]

/-- A run over a schema without comments fails with the same error, or gives the same output without
what documentation takes over from comments. -/
theorem outputs_uncommented (requested : List String) (options : Options) :
    schema.uncommented.outputs requested options =
      (schema.outputs requested options).map (List.map PackageOutput.uncommented) := by
  rw [outputs, outputs, requestedFiles_uncommented]
  cases schema.requestedFiles requested with
  | error cause => rfl
  | ok files =>
    have packages : packagesOf (files.map SchemaFile.uncommented) = packagesOf files := by
      rw [packagesOf, List.map_map]
      rfl
    simp only [Except.map, bind, Except.bind, packages, packageOutputs_uncommented]
    split <;> rfl

end Schema

end HttpClientGen
