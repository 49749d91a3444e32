import HttpClientGen.Proofs.Contents
import HttpClientGen.Proofs.Declared
import HttpClientGen.Proofs.Separation

/-!
# Output files declare what they use

Every type name that an output file uses is either built in or declared in the same file. Aliases,
unions and default shapes are there because the contents cover whatever the messages of the file
mention, and shapes for a direction because no demand is left open. That a name may belong to
another message than the one meant does no harm here, since it is declared all the same.
-/

namespace HttpClientGen

namespace Viewpoint

/-- A name that an output file may use. -/
def Usable (file : PackageFile) (name : String) : Prop :=
  name ∈ builtinTypes ∨ file.Declares name

/-- A file declares all that some contents list. -/
structure Backs (view : Viewpoint) (file : PackageFile) (contents : Contents) : Prop where
  wellKnown : ∀ type ∈ contents.wellKnown, file.Declares type.aliasName
  enums : ∀ enumeration ∈ contents.enums, file.Declares (view.enumName enumeration.fullName)
  messages : ∀ message ∈ contents.messages, file.Declares (view.messageName message.fullName)

variable {view : Viewpoint} {file : PackageFile} {contents : Contents}

theorem Backs.alias_declared (backs : view.Backs file contents) {name : String}
    (listed : name ∈ contents.wellKnown.map WellKnown.aliasName) : file.Declares name := by
  obtain ⟨type, isListed, rfl⟩ := List.mem_map.mp listed
  exact backs.wellKnown type isListed

/-- The default name of a message that is covered is declared, or the message is unknown. -/
theorem Backs.messageName_usable (backs : view.Backs file contents) {fullName : String}
    (covers : contents.Covers view.schema [] (.message fullName)) :
    Usable file (view.messageName fullName) := by
  cases known : WellKnown.ofFullName? fullName with
  | some type =>
    have declared := backs.alias_declared (covers.wellKnown type known)
    exact Or.inr (by simpa [messageName, known] using declared)
  | none =>
    cases found : view.schema.message? fullName with
    | none => exact Or.inl (by simp [messageName, known, found, builtinTypes])
    | some message =>
      have listed := backs.messages message (covers.message_mem known found)
      exact Or.inr (Schema.fullName_of_message? found ▸ listed)

theorem Backs.enumName_usable (backs : view.Backs file contents) {fullName : String}
    (covers : contents.Covers view.schema [] (.enumeration fullName)) :
    Usable file (view.enumName fullName) := by
  cases known : WellKnown.ofFullName? fullName with
  | some type =>
    have declared := backs.alias_declared (covers.wellKnown type known)
    exact Or.inr (by simpa [enumName, known] using declared)
  | none =>
    cases found : view.schema.enum? fullName with
    | none => exact Or.inl (by simp [enumName, known, found, builtinTypes])
    | some enumeration =>
      have listed := backs.enums enumeration (covers.enumeration_mem known found)
      exact Or.inr (Schema.fullName_of_enum? found ▸ listed)

/-- The type of a field of a covered message leads to a usable name. -/
theorem Backs.fieldType_usable (backs : view.Backs file contents) {field : Field}
    (covers : ∀ ref, field.kind.ref? = some ref → contents.Covers view.schema [] ref) :
    Usable file (view.fieldType field).leaf := by
  rw [fieldType, Cardinality.leaf_wrap, elementType]
  split
  · exact Or.inl (by decide)
  · cases kind : field.kind with
    | scalar scalar => exact Or.inl scalar.typeName_mem_builtinTypes
    | enumeration fullName => exact backs.enumName_usable (covers _ (by rw [kind]; rfl))
    | message fullName => exact backs.messageName_usable (covers _ (by rw [kind]; rfl))

/-- What a covered message's fields mention, the contents of the file cover. -/
def Spans (view : Viewpoint) (contents : Contents) : Prop :=
  ∀ message ∈ contents.messages, ∀ ref ∈ message.refs, contents.Covers view.schema [] ref

theorem Spans.field_covered (spans : view.Spans contents) {message : Message} {field : Field}
    (listed : message ∈ contents.messages) (held : field ∈ message.fields) :
    ∀ ref, field.kind.ref? = some ref → contents.Covers view.schema [] ref :=
  fun ref mentioned => spans message listed ref (List.mem_filterMap.mpr ⟨field, held, mentioned⟩)

/-- A file declares every name of the package that has an owner. -/
def DeclaresOwned (view : Viewpoint) (file : PackageFile) (registry : Registry) : Prop :=
  ∀ name, (registry.owner? view.package name).isSome → file.Declares name

variable {options : Options} {queue : List Usage} {before after : Registry}
  {granted : List Demand}

/-- Whatever a covered queue leads to is covered: a shape refers to messages by fields only. -/
theorem Spans.asked_covered (spans : view.Spans contents)
    (covered : ∀ usage ∈ queue, contents.Covers view.schema [] (.message usage.message))
    {usage : Usage} (asked : view.Asked options queue usage) :
    contents.Covers view.schema [] (.message usage.message) := by
  induction asked with
  | queued listed => exact covered _ listed
  | passed _ demanded pending ih =>
    obtain ⟨message, found, ordinary, -, direction, -, field, held, separate, -⟩ :=
      exists_field_of_pending demanded pending
    obtain ⟨kind, -, -⟩ := separateTarget?_eq_some_iff.mp separate
    have listed := ih.message_mem (isWellKnown_eq_false_iff.mp ordinary) found
    refine spans.field_covered listed (List.mem_of_mem_filter held) _ ?_
    rw [kind]
    rfl

/-- A message that needs separate shapes has a declared shape for every direction in which all its
demands are met. -/
theorem variantName_usable (owned : view.DeclaresOwned file after) {usage : Usage}
    (met : view.Met options after usage)
    (ordinary : isWellKnown usage.message = false)
    (separate : view.schema.discriminates usage.message = true) (direction : Direction)
    (used : usage.isIn direction = true) :
    Usable file (view.variantName options direction usage.message) := by
  obtain ⟨message, found⟩ := Schema.message?_of_discriminates separate
  have shape := met _ (directedDemand_mem_demands options found ordinary separate used)
  exact Or.inr (Schema.fullName_of_message? found ▸ owned _ shape)

/-- The types of a written record lead to usable names. -/
theorem granted_usable (backs : view.Backs file contents) (spans : view.Spans contents)
    (serves : view.Serves options queue before after granted)
    (covered : ∀ usage ∈ queue, contents.Covers view.schema [] (.message usage.message))
    (owned : view.DeclaresOwned file after)
    {demand : Demand} (isGranted : demand ∈ granted) :
    ∀ name ∈ demand.record.uses, Usable file name := by
  obtain ⟨usage, asked, demanded⟩ := serves.demanded demand isGranted
  obtain ⟨message, found, ordinary, shape⟩ := cases_of_mem_demands demanded
  have listed := (spans.asked_covered covered asked).message_mem
    (isWellKnown_eq_false_iff.mp ordinary) found
  intro name used
  obtain ⟨property, isProperty, rfl⟩ := List.mem_map.mp used
  rcases shape with rfl | ⟨direction, -, -, rfl⟩
  · obtain ⟨field, held, rfl⟩ := List.mem_map.mp isProperty
    exact backs.fieldType_usable (spans.field_covered listed held)
  · obtain ⟨field, held, rfl⟩ := List.mem_map.mp isProperty
    have heldAtAll : field ∈ message.fields := List.mem_of_mem_filter held
    simp only [shapeProperty]
    cases target : view.separateTarget? field with
    | none => exact backs.fieldType_usable (spans.field_covered listed heldAtAll)
    | some fullName =>
      obtain ⟨-, targetOrdinary, separate⟩ := separateTarget?_eq_some_iff.mp target
      have pending : usage.passOn direction fullName ∈
          (view.directedDemand options usage message direction).pending :=
        List.mem_map_of_mem (List.mem_filterMap.mpr ⟨field, held, target⟩)
      have met := serves.pendingMet _ isGranted _ pending
      rw [Cardinality.leaf_wrap]
      refine variantName_usable owned met targetOrdinary separate direction ?_
      cases direction <;> simp [Usage.passOn, Usage.isIn]

theorem signatureName_usable (backs : view.Backs file contents)
    (owned : view.DeclaresOwned file after)
    {usage : Usage} (covers : contents.Covers view.schema [] (.message usage.message))
    (met : view.Met options after usage) (direction : Direction)
    (used : usage.isIn direction = true) :
    Usable file (view.signatureName options direction usage.message) := by
  rw [signatureName]
  split
  · next apart =>
    simp only [Bool.and_eq_true, Bool.not_eq_true'] at apart
    exact variantName_usable owned met apart.1 apart.2 direction used
  · exact backs.messageName_usable covers

variable {session : Session} {files : List SchemaFile}

/-- The messages that planned methods use are among those that methods mention. -/
theorem message_mem_methodRefs {usage : Usage} (used : usage ∈ view.methodUsages options files) :
    .message usage.message ∈ files.flatMap SchemaFile.methodRefs := by
  obtain ⟨service, isService, plan, planned, member⟩ := mem_methodUsages_iff.mp used
  obtain ⟨file, isFile, inFile⟩ := List.mem_flatMap.mp isService
  refine List.mem_flatMap.mpr ⟨file, isFile, List.mem_flatMap.mpr ⟨service, inFile, ?_⟩⟩
  refine List.mem_flatMap.mpr ⟨plan.method, (Service.method_mem_and_input_of_mem_plans planned).1, ?_⟩
  rcases List.mem_pair.mp member with rfl | rfl <;> simp

/-- The names in the code of a service are usable where the messages of its plans are covered and
their demands are met. -/
theorem codeOf_usable (backs : view.Backs file contents)
    (owned : view.DeclaresOwned file after)
    {service : Service}
    (covered : ∀ plan ∈ service.plans view.schema, ∀ usage ∈ planUsages plan,
      contents.Covers view.schema [] (.message usage.message) ∧ view.Met options after usage) :
    ∀ name ∈ (view.codeOf options service).uses, Usable file name := by
  have input (plan : MethodPlan) (planned : plan ∈ service.plans view.schema) :
      Usable file (view.signatureName options .request plan.method.input) := by
    obtain ⟨covers, met⟩ :=
      covered plan planned ⟨plan.method.input, true, false⟩ (by simp [planUsages])
    exact signatureName_usable backs owned covers met .request rfl
  have output (plan : MethodPlan) (planned : plan ∈ service.plans view.schema) :
      Usable file (view.signatureName options .response plan.method.output) := by
    obtain ⟨covers, met⟩ :=
      covered plan planned ⟨plan.method.output, false, true⟩ (by simp [planUsages])
    exact signatureName_usable backs owned covers met .response rfl
  intro name used
  rcases List.mem_append.mp used with signature | function
  · obtain ⟨_, isSignature, named⟩ := List.mem_flatMap.mp signature
    obtain ⟨plan, planned, rfl⟩ := List.mem_map.mp isSignature
    rcases List.mem_pair.mp named with rfl | rfl
    · exact input plan planned
    · exact output plan planned
  · obtain ⟨_, isFunction, rfl⟩ := List.mem_map.mp function
    obtain ⟨plan, planned, rfl⟩ := List.mem_map.mp isFunction
    exact output plan planned

section File

variable {defaults variants : List Demand}

/-- A file declares every name that was claimed while it was written. -/
theorem fileOf_declaresOwned (files : List SchemaFile)
    (serves : view.Serves options queue before after (defaults ++ variants))
    (free : ∀ name, before.owner? view.package name = none) :
    view.DeclaresOwned (view.fileOf options files defaults variants) after := by
  intro name owned
  obtain ⟨demand, isGranted, rfl⟩ := serves.exists_granted_of_owned free owned
  have listed : demand.record ∈ defaults.map (·.record) ++ variants.map (·.record) := by
    rw [← List.map_append]
    exact List.mem_map_of_mem isGranted
  exact PackageFile.declares_record listed

theorem fileOf_backs
    (met : ∀ usage ∈ view.declaredUsages files, view.Met options after usage)
    (owned : view.DeclaresOwned (view.fileOf options files defaults variants) after) :
    view.Backs (view.fileOf options files defaults variants) (view.schema.contents files) := by
  constructor
  · exact fun type listed => PackageFile.declares_alias listed
  · intro enumeration listed
    have union : UnionType.ofEnumeration (view.enumName enumeration.fullName) enumeration ∈
        (view.fileOf options files defaults variants).enums :=
      List.mem_map.mpr ⟨enumeration, listed, rfl⟩
    have declared := PackageFile.declares_union union
    rwa [UnionType.ofEnumeration_name] at declared
  · intro message listed
    obtain ⟨found, unknown⟩ := Schema.message?_of_mem_contentsOf listed
    have ordinary := isWellKnown_eq_false_iff.mpr unknown
    have declared : ⟨message.fullName, false, false⟩ ∈ view.declaredUsages files :=
      List.mem_map.mpr ⟨message, listed, rfl⟩
    exact owned _ (met _ declared _ (defaultDemand_mem_demands options found ordinary))

end File

/-- The messages that an output file declares, and those that its methods use, are covered. -/
theorem usages_covered (options : Options) (unambiguous : Unambiguous view.schema.mentions)
    (known : files ⊆ view.schema.files) :
    ∀ usage ∈ view.declaredUsages files ++ view.methodUsages options files,
      (view.schema.contents files).Covers view.schema [] (.message usage.message) := by
  intro usage used
  rcases List.mem_append.mp used with declared | byMethod
  · obtain ⟨message, listed, rfl⟩ := List.mem_map.mp declared
    obtain ⟨found, unknown⟩ := Schema.message?_of_mem_contentsOf listed
    refine Contents.covers_message unknown fun other alsoFound => ?_
    obtain rfl := Option.some.inj (found.symm.trans alsoFound)
    exact listed
  · exact Schema.contents_covers unambiguous known _
      (List.mem_append_left _ (List.mem_append_right _ (message_mem_methodRefs byMethod)))

theorem contents_spans (unambiguous : Unambiguous view.schema.mentions)
    (known : files ⊆ view.schema.files) : view.Spans (view.schema.contents files) :=
  fun message listed ref mentioned => Schema.contents_covers unambiguous known ref
    (List.mem_append_right _ (List.mem_flatMap.mpr ⟨message, listed, mentioned⟩))

/-- A package whose names are all free gets a file that declares what it uses. -/
theorem packageFile_closed (unambiguous : Unambiguous view.schema.mentions)
    (sound : session.memo.Sound view.schema)
    (free : ∀ name, session.registry.owner? view.package name = none)
    (known : files ⊆ view.schema.files) : (view.packageFile session files).1.Closed := by
  obtain ⟨defaults, variants, parts, serves, -⟩ := packageFile_serves sound files
  rw [parts]
  have owned := fileOf_declaresOwned files serves free
  have backs := fileOf_backs
    (fun usage listed => serves.queueMet usage (List.mem_append_left _ listed)) owned
  have covered := usages_covered session.options unambiguous known
  intro name used
  simp only [PackageFile.uses, List.mem_append] at used
  obtain (wellKnown | inRecord) | inService := used
  · obtain ⟨type, listed, brought⟩ := List.mem_flatMap.mp wellKnown
    obtain ⟨dependency, needed, rfl⟩ := List.mem_map.mp brought
    exact Or.inr (backs.alias_declared (Schema.dependencies_mem_contents listed needed))
  · obtain ⟨record, listed, named⟩ := List.mem_flatMap.mp inRecord
    have fromRuns : record ∈ (defaults ++ variants).map (·.record) := by
      rw [List.map_append]
      exact listed
    obtain ⟨demand, isGranted, rfl⟩ := List.mem_map.mp fromRuns
    exact granted_usable backs (contents_spans unambiguous known) serves covered owned isGranted
      name named
  · obtain ⟨code, listed, named⟩ := List.mem_flatMap.mp inService
    obtain ⟨service, isService, rfl⟩ := List.mem_map.mp listed
    refine codeOf_usable backs owned (fun plan planned usage used => ?_) name named
    have isUsed : usage ∈ view.declaredUsages files ++ view.methodUsages session.options files :=
      List.mem_append_right _ (mem_methodUsages_iff.mpr ⟨service, isService, plan, planned, used⟩)
    exact ⟨covered usage isUsed, serves.queueMet usage isUsed⟩

end Viewpoint

namespace Schema

/-- What a run gives is the text of outputs that declare all type names that they use, provided that
no name of the schema stands for both a message and an enumeration. -/
theorem generate_closed (schema : Schema) (requested : List String) (options : Options)
    (generated : List GeneratedFile) (unambiguous : Unambiguous schema.mentions)
    (done : schema.generate requested options = .ok generated) :
    ∃ outputs, schema.outputs requested options = .ok outputs ∧
      generated = outputs.map PackageOutput.render ∧
      ∀ output ∈ outputs, output.file.Closed := by
  obtain ⟨outputs, run, rendered⟩ := map_eq_ok_iff.mp done
  refine ⟨outputs, run, rendered.symm, fun output member => ?_⟩
  rw [outputs_eq_of_ok run] at member
  obtain ⟨package, -, rfl⟩ := List.mem_map.mp member
  have known : (requested.filterMap schema.file?).filter (·.package = package) ⊆ schema.files := by
    intro file listed
    obtain ⟨name, -, found⟩ := List.mem_filterMap.mp (List.mem_of_mem_filter listed)
    exact List.mem_of_find?_eq_some found
  let view : Viewpoint := ⟨schema, package⟩
  have empty : Memo.Sound {} view.schema := Memo.sound_empty
  exact view.packageFile_closed unambiguous empty (fun _ => rfl) known

/-- Nodes that hold nodes and are used in both directions. -/
def treeFile : SchemaFile where
  name := "tree.proto"
  package := "tree"
  messages := [
    { declared := ⟨"tree", "Node"⟩
      fields := [{ name := "name", kind := .scalar .string },
        { name := "note", kind := .scalar .string, behaviors := [.inputOnly] },
        { name := "children", kind := .message "tree.Node", cardinality := .repeated },
        { name := "extras", kind := .message "google.protobuf.ListValue" }] }]
  services := [
    { declared := ⟨"tree", "Nodes"⟩
      methods := [
        { name := "GetNode", input := "tree.Node", output := "tree.Node"
          binding := some ⟨"get", "/v1/\x7bname=nodes/*\x7d", ""⟩ }] }]

/-- The request and the response refer to shapes of the same kind, and the list value to a value. -/
theorem generate_closed_tree :
    Unambiguous (ofFiles [treeFile]).mentions ∧
      ∃ generated, (ofFiles [treeFile]).generate ["tree.proto"] {} = .ok generated ∧
        ∃ outputs, (ofFiles [treeFile]).outputs ["tree.proto"] {} = .ok outputs ∧
          generated = outputs.map PackageOutput.render ∧
          ∀ output ∈ outputs, output.file.Closed := by
  have unambiguous : Unambiguous (ofFiles [treeFile]).mentions := by decide
  have present : ∀ name ∈ ["tree.proto"], ((ofFiles [treeFile]).file? name).isSome := by decide
  have faultless : ((packagesOf (["tree.proto"].filterMap (ofFiles [treeFile]).file?)).flatMap
      fun package => ((ofFiles [treeFile]).separateRun
        (["tree.proto"].filterMap (ofFiles [treeFile]).file?) {} package).2.errors) = [] := by
    simp only [errors_separateRun]
    rfl
  have done := generate_of_present {} present
  rw [if_pos faultless] at done
  exact ⟨unambiguous, _, done, generate_closed _ _ _ _ unambiguous done⟩

/-- An order with a state that another package declares. -/
def orderMessage : Message where
  declared := ⟨"shop", "Order"⟩
  fields := [{ name := "state", kind := .enumeration "base.State" }]

/-- A method takes the enumeration of that state for its input. -/
def orderFile : SchemaFile where
  name := "shop.proto"
  package := "shop"
  messages := [orderMessage]
  services := [
    { declared := ⟨"shop", "Orders"⟩
      methods := [
        { name := "Watch", input := "base.State", output := "shop.Order"
          serverStreaming := true }] }]

def orderSchema : Schema :=
  .ofFiles [orderFile,
    { name := "base.proto"
      package := "base"
      enums := [{ declared := ⟨"base", "State"⟩, values := [{ name := "OPEN" }] }] }]

theorem message?_orderSchema : orderSchema.message? "shop.Order" = some orderMessage :=
  rfl

/-- The method comes before the field, so the name is met as that of a message that is not there. -/
theorem contents_orderFile : orderSchema.contents [orderFile] = { messages := [orderMessage] } := by
  have ordinary : WellKnown.ofFullName? "shop.Order" = none ∧
      WellKnown.ofFullName? "base.State" = none := by decide
  have queue : [orderFile].flatMap SchemaFile.declaredRefs ++
      [orderFile].flatMap SchemaFile.methodRefs =
        [.message "shop.Order", .message "base.State", .message "shop.Order"] := by decide
  have rest : [.message "base.State", .message "shop.Order"] ++ orderMessage.refs =
      [.message "base.State", .message "shop.Order", .enumeration "base.State"] := rfl
  have walk : orderSchema.contentsOf []
      [.message "shop.Order", .message "base.State", .message "shop.Order"] =
        { messages := [orderMessage] } := by
    have again := @contentsOf_of_met orderSchema ["base.State", "shop.Order"]
      (.message "shop.Order") [.enumeration "base.State"] ordinary.1 (by decide)
    have field := @contentsOf_of_met orderSchema ["base.State", "shop.Order"]
      (.enumeration "base.State") [] ordinary.2 (by decide)
    rw [contentsOf_message_of_found ordinary.1 (by decide) message?_orderSchema, rest,
      contentsOf_message_of_absent ordinary.2 (by decide) rfl, again, field, contentsOf]
    rfl
  rw [contents, queue, walk]
  rfl

/-- The record for an order, as it is written. -/
def orderRecord : RecordType :=
  ⟨⟨[], []⟩, "Order", [⟨⟨[], []⟩, "state", false, .named "base_State"⟩]⟩

theorem synthesizeAll_order :
    (Viewpoint.mk orderSchema "shop").synthesizeAll {} [⟨"shop.Order", false, false⟩] =
      ([orderRecord], { registry := ⟨[(("shop", "Order"), "shop.Order")]⟩ }) := by
  have written : (Viewpoint.mk orderSchema "shop").write {} ⟨"shop.Order", false, false⟩ =
      ⟨[orderRecord], [], { registry := ⟨[(("shop", "Order"), "shop.Order")]⟩ }⟩ := rfl
  simp only [Viewpoint.synthesizeAll, Viewpoint.synthesize]
  rw [Viewpoint.writeAll, written]
  simp [Viewpoint.writeAll]

/-- The output for orders refers to a state, but declares none. -/
def orderOutput : PackageFile where
  wellKnown := []
  enums := []
  messages := [orderRecord]
  services := [⟨⟨⟨[], []⟩, "Orders", []⟩, ⟨"Orders", []⟩, []⟩]
  variants := []

theorem separateRun_orderFile :
    (orderSchema.separateRun [orderFile] {} "shop").1 = orderOutput := by
  have own : [orderFile].filter (·.package = "shop") = [orderFile] := by decide
  have declared : Viewpoint.declaredUsages ⟨orderSchema, "shop"⟩ [orderFile] =
      [⟨"shop.Order", false, false⟩] := by
    rw [Viewpoint.declaredUsages, contents_orderFile]
    rfl
  rw [separateRun, own, Viewpoint.packageFile_eq, declared, contents_orderFile,
    synthesizeAll_order]
  rfl

theorem outputs_orderSchema :
    orderSchema.outputs ["shop.proto"] {} = .ok [⟨"shop", orderOutput⟩] := by
  have present : ∀ name ∈ ["shop.proto"], (orderSchema.file? name).isSome := by decide
  have faultless : ((packagesOf (["shop.proto"].filterMap orderSchema.file?)).flatMap
      fun package => (orderSchema.separateRun
        (["shop.proto"].filterMap orderSchema.file?) {} package).2.errors) = [] := by
    simp only [errors_separateRun]
    rfl
  have run := outputs_of_present {} present
  rw [if_pos faultless] at run
  rw [run, ← separateRun_orderFile]
  rfl

/-- It is not enough that declarations and fields keep messages and enumerations apart. -/
theorem not_generate_closed_of_declaredRefs :
    ¬∀ (schema : Schema) (requested : List String) (options : Options)
      (generated : List GeneratedFile), Unambiguous schema.declaredRefs →
        schema.generate requested options = .ok generated →
          ∃ outputs, schema.outputs requested options = .ok outputs ∧
            generated = outputs.map PackageOutput.render ∧
            ∀ output ∈ outputs, output.file.Closed := by
  intro always
  have run := outputs_orderSchema
  have done : orderSchema.generate ["shop.proto"] {} =
      .ok [PackageOutput.render ⟨"shop", orderOutput⟩] := by
    rw [generate, run]
    rfl
  obtain ⟨outputs, sameRun, -, closed⟩ :=
    always orderSchema ["shop.proto"] {} _ (by decide) done
  obtain rfl := Except.ok.inj (run.symm.trans sameRun)
  have dangling : ¬orderOutput.Closed := by decide +kernel
  exact dangling (closed _ List.mem_cons_self)

end Schema

end HttpClientGen
