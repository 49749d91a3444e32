import HttpClientGen.Proofs.Introduced
import HttpClientGen.Proofs.Separation

/-!
# Exactly the needed shapes are declared

The inputs of planned methods are needed in the shape for requests, and so are the messages that the
fields of such a shape hold, as far as they need separate shapes; outputs and responses likewise. As
long as no two messages and no two shapes of a message claim the same name, the output file of a
package has these shapes and no other ones for a direction, next to the default shapes of all
messages that it has to declare, and each of them once.
-/

namespace HttpClientGen

def Direction.messageOf (plan : MethodPlan) : Direction → String
  | request => plan.method.input
  | response => plan.method.output

theorem Usage.isIn_passOn {usage : Usage} {direction other : Direction} {message : String} :
    (usage.passOn direction message).isIn other = true ↔
      usage.isIn other = true ∨ other = direction := by
  cases direction <;> cases other <;> simp [passOn, isIn]

namespace Viewpoint

/-- The messages whose shapes for a direction are needed by planned methods. -/
inductive Needed (view : Viewpoint) (direction : Direction) (plans : List MethodPlan) :
    Message → Prop
  | used {plan : MethodPlan} {message : Message} (planned : plan ∈ plans)
      (found : view.schema.message? (direction.messageOf plan) = some message)
      (ordinary : isWellKnown message.fullName = false)
      (separate : view.schema.discriminates message.fullName = true) :
      Needed view direction plans message
  | nested {outer inner : Message} {field : Field} {name : String}
      (needed : Needed view direction plans outer) (held : field ∈ outer.fields)
      (travels : direction.excluded ∉ field.behaviors) (kind : field.kind = .message name)
      (found : view.schema.message? name = some inner)
      (ordinary : isWellKnown inner.fullName = false)
      (separate : view.schema.discriminates inner.fullName = true) :
      Needed view direction plans inner

/-- The type name of a message in its default shape or in the shape for a direction. -/
def typeName (view : Viewpoint) (options : Options) (message : Message) :
    Option Direction → String
  | none => view.messageName message.fullName
  | some direction => view.variantName options direction message.fullName

def recordOf (view : Viewpoint) (options : Options) (message : Message) :
    Option Direction → RecordType
  | none => view.defaultRecord message
  | some direction => view.shape options direction message

/-- The shapes that the output file for some files is asked for: the default shapes of the messages
that it has to declare and of those that its methods use, and both the default shapes and the shapes for
a direction of the messages that are needed in that direction. -/
inductive Wanted (view : Viewpoint) (files : List SchemaFile) (plans : List MethodPlan) :
    Message → Option Direction → Prop
  | declared {message : Message} (listed : message ∈ (view.schema.contents files).messages) :
      Wanted view files plans message none
  | used {plan : MethodPlan} {direction : Direction} {message : Message} (planned : plan ∈ plans)
      (found : view.schema.message? (direction.messageOf plan) = some message) :
      Wanted view files plans message none
  | held {direction : Direction} {message : Message}
      (needed : view.Needed direction plans message) : Wanted view files plans message none
  | directed {direction : Direction} {message : Message}
      (needed : view.Needed direction plans message) :
      Wanted view files plans message (some direction)

/-- The answers that the registry gives while an output file is written. -/
def fileAnswers (view : Viewpoint) (session : Session) (files : List SchemaFile) : List Claim :=
  session.registry.answers view.package
    (view.claims session.options (view.fileTaken session files))

variable {view : Viewpoint} {options : Options} {session : Session} {files : List SchemaFile}

theorem recordOf_name (message : Message) (shape : Option Direction) :
    (view.recordOf options message shape).name = view.typeName options message shape := by
  cases shape <;> rfl

theorem Needed.separate_and_found {direction : Direction} {plans : List MethodPlan}
    {message : Message} (needed : view.Needed direction plans message) :
    view.schema.message? message.fullName = some message ∧
      isWellKnown message.fullName = false ∧
      view.schema.discriminates message.fullName = true := by
  cases needed with
  | used _ found ordinary separate =>
    exact ⟨Schema.fullName_of_message? found ▸ found, ordinary, separate⟩
  | nested _ _ _ _ found ordinary separate =>
    exact ⟨Schema.fullName_of_message? found ▸ found, ordinary, separate⟩

theorem Wanted.found {plans : List MethodPlan} {message : Message} {shape : Option Direction}
    (wanted : view.Wanted files plans message shape) :
    view.schema.message? message.fullName = some message := by
  cases wanted with
  | declared listed => exact (Schema.message?_of_mem_contentsOf listed).1
  | used _ found => exact Schema.fullName_of_message? found ▸ found
  | held needed => exact needed.separate_and_found.1
  | directed needed => exact needed.separate_and_found.1

/-- A demand is for a certain shape of a message. The shape for a direction is demanded by an entry
among the given ones that is used in that direction. -/
structure IsFor (view : Viewpoint) (options : Options) (entries : List Usage) (demand : Demand)
    (message : Message) (shape : Option Direction) : Prop where
  found : view.schema.message? message.fullName = some message
  owner : demand.owner = message.fullName
  record : demand.record = view.recordOf options message shape
  directed : ∀ direction, shape = some direction →
    isWellKnown message.fullName = false ∧ view.schema.discriminates message.fullName = true ∧
      ∃ usage ∈ entries, usage.message = message.fullName ∧ usage.isIn direction = true ∧
        demand = view.directedDemand options usage message direction

theorem isFor_defaultDemand {message : Message} (entries : List Usage)
    (found : view.schema.message? message.fullName = some message) :
    view.IsFor options entries (view.defaultDemand message) message none :=
  ⟨found, rfl, rfl, nofun⟩

theorem isFor_directedDemand {entries : List Usage} {usage : Usage} {message : Message}
    {direction : Direction} (listed : usage ∈ entries)
    (found : view.schema.message? usage.message = some message)
    (ordinary : isWellKnown usage.message = false)
    (separate : view.schema.discriminates usage.message = true)
    (used : usage.isIn direction = true) :
    view.IsFor options entries (view.directedDemand options usage message direction) message
      (some direction) := by
  have named := Schema.fullName_of_message? found
  refine ⟨named ▸ found, rfl, rfl, ?_⟩
  rintro _ ⟨⟩
  exact ⟨named ▸ ordinary, named ▸ separate, usage, listed, named.symm, used, rfl⟩

/-- Every demand of an entry is for a certain shape. -/
theorem exists_isFor {entries : List Usage} {usage : Usage} {demand : Demand}
    (listed : usage ∈ entries) (demanded : demand ∈ view.demands options usage) :
    ∃ message shape, view.IsFor options entries demand message shape := by
  obtain ⟨message, found, ordinary, rfl | ⟨direction, used, separate, rfl⟩⟩ :=
    cases_of_mem_demands demanded
  · have named := Schema.fullName_of_message? found
    exact ⟨message, none, isFor_defaultDemand entries (named ▸ found)⟩
  · exact ⟨message, some direction, isFor_directedDemand listed found ordinary separate used⟩

/-- An entry is used in one direction at most, and its message is needed in that direction if it
needs separate shapes. -/
structure Warranted (view : Viewpoint) (plans : List MethodPlan) (usage : Usage) : Prop where
  only : ∀ direction other, usage.isIn direction = true → usage.isIn other = true →
    other = direction
  needed : ∀ direction message, usage.isIn direction = true →
    view.schema.message? usage.message = some message → isWellKnown usage.message = false →
    view.schema.discriminates usage.message = true → view.Needed direction plans message

theorem warranted_of_planUsages {plans : List MethodPlan} {plan : MethodPlan}
    (planned : plan ∈ plans) {usage : Usage} (used : usage ∈ planUsages plan) :
    view.Warranted plans usage := by
  have starts (direction : Direction) (message : Message)
      (found : view.schema.message? (direction.messageOf plan) = some message)
      (ordinary : isWellKnown (direction.messageOf plan) = false)
      (separate : view.schema.discriminates (direction.messageOf plan) = true) :
      view.Needed direction plans message := by
    have named := Schema.fullName_of_message? found
    exact .used planned found (named ▸ ordinary) (named ▸ separate)
  rcases List.mem_pair.mp used with rfl | rfl
  · refine ⟨?_, ?_⟩
    · rintro (_ | _) (_ | _) <;> simp [Usage.isIn]
    · rintro (_ | _) message used
      · exact starts .request message
      · cases used
  · refine ⟨?_, ?_⟩
    · rintro (_ | _) (_ | _) <;> simp [Usage.isIn]
    · rintro (_ | _) message used
      · cases used
      · exact starts .response message

/-- An entry passes nothing but its own direction on. -/
theorem Warranted.passOn {plans : List MethodPlan} {usage other : Usage} {demand : Demand}
    (warranted : view.Warranted plans usage) (demanded : demand ∈ view.demands options usage)
    (pending : other ∈ demand.pending) : view.Warranted plans other := by
  obtain ⟨outer, found, ordinary, separate, direction, used, field, held, target, passed⟩ :=
    exists_field_of_pending demanded pending
  have same (way : Direction) (isIn : other.isIn way = true) : way = direction := by
    rw [passed] at isIn
    rcases Usage.isIn_passOn.mp isIn with also | same
    · exact warranted.only direction way used also
    · exact same
  refine ⟨fun way way' isIn isIn' => (same way' isIn').trans (same way isIn).symm, ?_⟩
  intro way inner isIn foundInner ordinaryInner separateInner
  obtain rfl := same way isIn
  obtain ⟨kind, -, -⟩ := separateTarget?_eq_some_iff.mp target
  obtain ⟨heldAtAll, travels⟩ := List.mem_filter.mp held
  have named := Schema.fullName_of_message? foundInner
  exact .nested (warranted.needed way outer used found ordinary separate) heldAtAll
    (by simpa using travels) kind foundInner (named ▸ ordinaryInner) (named ▸ separateInner)

/-- Whatever is asked for while an output file is written is warranted by its planned methods. -/
theorem Asked.warranted {usage : Usage}
    (asked : view.Asked options (view.declaredUsages files ++ view.methodUsages options files)
      usage) : view.Warranted (plansOf (view.codesOf options files)) usage := by
  induction asked with
  | queued listed =>
    rcases List.mem_append.mp listed with declared | byMethod
    · obtain ⟨message, -, rfl⟩ := List.mem_map.mp declared
      constructor <;> rintro (_ | _) <;> nofun
    · obtain ⟨plan, planned, member⟩ := List.mem_flatMap.mp byMethod
      exact warranted_of_planUsages planned member
  | passed _ demanded pending ih => exact ih.passOn demanded pending

def plansIn (view : Viewpoint) (options : Options) (files : List SchemaFile) : List MethodPlan :=
  plansOf (view.codesOf options files)

variable {message : Message}

/-- What the claims for an output file are granted. -/
def fileGranted (view : Viewpoint) (session : Session) (files : List SchemaFile) : List Demand :=
  (view.grants session.options session.registry (view.fileTaken session files)).1

/-- A demand for the shape for a direction is one for a needed message. -/
theorem IsFor.needed (sound : session.memo.Sound view.schema) {demand : Demand}
    {direction : Direction}
    (isFor : view.IsFor session.options (view.fileTaken session files) demand message
      (some direction)) :
    view.Needed direction (view.plansIn session.options files) message := by
  obtain ⟨takes, -⟩ := packageFile_takes sound files
  obtain ⟨ordinary, separate, usage, isTaken, same, used, -⟩ := isFor.directed direction rfl
  have warranted := (takes.asked usage isTaken).warranted
  exact warranted.needed direction message used (same ▸ isFor.found) (same ▸ ordinary)
    (same ▸ separate)

/-- A message that is asked for has its default shape among those that the file is asked for. -/
theorem Asked.wanted {usage : Usage}
    (asked : view.Asked options (view.declaredUsages files ++ view.methodUsages options files) usage)
    (found : view.schema.message? usage.message = some message) :
    view.Wanted files (view.plansIn options files) message none := by
  cases asked with
  | queued listed =>
    rcases List.mem_append.mp listed with declared | byMethod
    · obtain ⟨other, isListed, rfl⟩ := List.mem_map.mp declared
      obtain rfl := Option.some.inj ((Schema.message?_of_mem_contentsOf isListed).1.symm.trans found)
      exact .declared isListed
    · obtain ⟨plan, planned, member⟩ := List.mem_flatMap.mp byMethod
      rcases List.mem_pair.mp member with rfl | rfl
      · have input : view.schema.message? (Direction.request.messageOf plan) = some message := found
        exact .used planned input
      · have output : view.schema.message? (Direction.response.messageOf plan) = some message :=
          found
        exact .used planned output
  | passed before demanded pending =>
    have warranted := (Asked.passed before demanded pending).warranted
    obtain ⟨-, -, -, -, direction, -, field, -, target, passed⟩ :=
      exists_field_of_pending demanded pending
    obtain ⟨-, ordinary, separate⟩ := separateTarget?_eq_some_iff.mp target
    have used : usage.isIn direction = true := by
      rw [passed]
      exact Usage.isIn_passOn.mpr (Or.inr rfl)
    exact .held (warranted.needed direction message used found ordinary separate)

/-- While an output file is written, no claim ends in a collision, and the names of a needed message
are all different. -/
structure Apart (view : Viewpoint) (session : Session) (files : List SchemaFile) : Prop where
  sound : session.memo.Sound view.schema
  free : ∀ name, session.registry.owner? view.package name = none
  answers : ∀ answer ∈ view.fileAnswers session files, ∀ owner, answer ≠ .collision owner
  names : ∀ direction message,
    view.Needed direction (view.plansIn session.options files) message →
      Function.Injective (view.typeName session.options message)

/-- Where nothing collides, owner and name tell what a demand is for: two shapes of one message have
different names, at least if one of them is for a direction, since then the message is needed. -/
theorem Apart.isFor_unique (apart : view.Apart session files) {demand other : Demand}
    {otherMessage : Message} {shape otherShape : Option Direction}
    (sameOwner : other.owner = demand.owner) (sameName : other.record.name = demand.record.name)
    (isFor : view.IsFor session.options (view.fileTaken session files) demand message shape)
    (isForOther : view.IsFor session.options (view.fileTaken session files) other otherMessage
      otherShape) : otherMessage = message ∧ otherShape = shape := by
  obtain rfl : otherMessage = message := by
    have sameNames : otherMessage.fullName = message.fullName := by
      rw [← isForOther.owner, sameOwner, isFor.owner]
    have found := isForOther.found
    rw [sameNames, isFor.found] at found
    exact (Option.some.inj found).symm
  refine ⟨rfl, ?_⟩
  rw [isFor.record, isForOther.record, recordOf_name, recordOf_name] at sameName
  cases otherShape with
  | some direction =>
    exact apart.names direction otherMessage (isForOther.needed apart.sound) sameName
  | none =>
    cases shape with
    | some direction =>
      exact apart.names direction otherMessage (isFor.needed apart.sound) sameName
    | none => rfl

/-- Where nothing collides, a shape that is demanded is granted, be it upon this demand or upon
another one. -/
theorem Apart.exists_granted (apart : view.Apart session files) {demand : Demand}
    {shape : Option Direction}
    (claimed : demand ∈ view.claims session.options (view.fileTaken session files))
    (isFor : view.IsFor session.options (view.fileTaken session files) demand message shape) :
    ∃ granted ∈ view.fileGranted session files,
      view.IsFor session.options (view.fileTaken session files) granted message shape := by
  obtain ⟨granted, isGranted, sameName, sameOwner⟩ :=
    Registry.exists_granted_of_ne_collision apart.free apart.answers claimed
  obtain ⟨usage, isTaken, demanded⟩ := exists_usage_of_granted isGranted
  obtain ⟨other, otherShape, isForOther⟩ := exists_isFor isTaken demanded
  obtain ⟨rfl, rfl⟩ := apart.isFor_unique sameOwner sameName isFor isForOther
  exact ⟨granted, isGranted, isForOther⟩

/-- A message that needs separate shapes and is taken from the queue gets its shape. -/
theorem Apart.exists_granted_of_taken (apart : view.Apart session files) {usage : Usage}
    (isTaken : usage ∈ view.fileTaken session files) {direction : Direction}
    (used : usage.isIn direction = true)
    (found : view.schema.message? usage.message = some message)
    (ordinary : isWellKnown message.fullName = false)
    (separate : view.schema.discriminates message.fullName = true) :
    ∃ granted ∈ view.fileGranted session files,
      view.IsFor session.options (view.fileTaken session files) granted message
        (some direction) := by
  rw [Schema.fullName_of_message? found] at ordinary separate
  refine apart.exists_granted (List.mem_flatMap.mpr ⟨usage, isTaken, ?_⟩)
    (isFor_directedDemand isTaken found ordinary separate used)
  exact directedDemand_mem_demands session.options found ordinary separate used

/-- Both messages of a planned method are asked for in their directions. -/
theorem exists_usage_of_planned {plan : MethodPlan}
    (planned : plan ∈ view.plansIn options files) (direction : Direction) :
    ∃ usage ∈ view.methodUsages options files,
      usage.message = direction.messageOf plan ∧ usage.isIn direction = true := by
  cases direction with
  | request =>
    exact ⟨⟨plan.method.input, true, false⟩,
      List.mem_flatMap.mpr ⟨plan, planned, by simp [planUsages]⟩, rfl, rfl⟩
  | response =>
    exact ⟨⟨plan.method.output, false, true⟩,
      List.mem_flatMap.mpr ⟨plan, planned, by simp [planUsages]⟩, rfl, rfl⟩

/-- Every needed shape is granted: the queue starts with the messages of planned methods, and a shape
that is granted puts the messages that it refers to into the queue. -/
theorem Apart.exists_granted_of_needed (apart : view.Apart session files) {direction : Direction}
    (needed : view.Needed direction (view.plansIn session.options files) message) :
    ∃ granted ∈ view.fileGranted session files,
      view.IsFor session.options (view.fileTaken session files) granted message
        (some direction) := by
  obtain ⟨takes, -⟩ := packageFile_takes apart.sound files
  induction needed with
  | used planned found ordinary separate =>
    obtain ⟨usage, queued, same, used⟩ := exists_usage_of_planned planned direction
    exact apart.exists_granted_of_taken (takes.queued usage (List.mem_append_right _ queued)) used
      (same ▸ found) ordinary separate
  | @nested outer inner field name _ held travels kind found ordinary separate ih =>
    obtain ⟨granted, isGranted, isFor⟩ := ih
    obtain ⟨-, -, usage, -, -, used, rfl⟩ := isFor.directed direction rfl
    have named := Schema.fullName_of_message? found
    have target : view.separateTarget? field = some name :=
      separateTarget?_eq_some_iff.mpr ⟨kind, named ▸ ordinary, named ▸ separate⟩
    have inShape : field ∈ outer.fieldsIn direction :=
      List.mem_filter.mpr ⟨held, by simpa using travels⟩
    have pending := takes.pending _ isGranted (usage.passOn direction name)
      (List.mem_map_of_mem (List.mem_filterMap.mpr ⟨field, inShape, target⟩))
    exact apart.exists_granted_of_taken pending (Usage.isIn_passOn.mpr (Or.inl used)) found ordinary
      separate

/-- The records of an output file, each for a message in a certain shape: the shapes for a direction
are those of the needed messages, and all messages that the file has to declare are there in default
shape. -/
theorem Apart.exists_declared (apart : view.Apart session files) :
    ∃ declared : List (Message × Option Direction),
      (view.packageFile session files).1.messages ++ (view.packageFile session files).1.variants =
          declared.map (fun (message, shape) => view.recordOf session.options message shape) ∧
        (declared.map fun (message, shape) =>
          view.typeName session.options message shape).Nodup ∧
        (∀ direction message, (message, some direction) ∈ declared ↔
          view.Needed direction (view.plansIn session.options files) message) ∧
        ∀ message ∈ (view.schema.contents files).messages, (message, none) ∈ declared := by
  obtain ⟨takes, ⟨defaults, variants, split, parts⟩, -⟩ := packageFile_takes apart.sound files
  have labelled (demand : {demand // demand ∈ view.fileGranted session files}) :
      ∃ label : Message × Option Direction,
        view.IsFor session.options (view.fileTaken session files) demand.1 label.1 label.2 := by
    obtain ⟨usage, isTaken, demanded⟩ := exists_usage_of_granted demand.2
    obtain ⟨message, shape, isFor⟩ := exists_isFor isTaken demanded
    exact ⟨(message, shape), isFor⟩
  choose label isFor using labelled
  let declared := (view.fileGranted session files).attach.map label
  have records : declared.map (fun (message, shape) =>
      view.recordOf session.options message shape) =
        (view.fileGranted session files).map (·.record) := by
    rw [List.map_map]
    conv_rhs => rw [← List.attach_map_subtype_val (view.fileGranted session files), List.map_map]
    exact List.map_congr_left fun demand _ => (isFor demand).record.symm
  have names : declared.map (fun (message, shape) =>
      view.typeName session.options message shape) =
        (view.fileGranted session files).map (·.record.name) := by
    have same := congrArg (List.map (·.name)) records
    simpa only [List.map_map, Function.comp_def, recordOf_name] using same
  have mem_declared (message : Message) (shape : Option Direction)
      (granted : ∃ demand ∈ view.fileGranted session files,
        view.IsFor session.options (view.fileTaken session files) demand message shape) :
      (message, shape) ∈ declared := by
    obtain ⟨demand, isGranted, isForShape⟩ := granted
    obtain ⟨rfl, rfl⟩ := apart.isFor_unique rfl rfl (isFor ⟨demand, isGranted⟩) isForShape
    exact List.mem_map_of_mem (List.mem_attach _ ⟨demand, isGranted⟩)
  refine ⟨declared, ?_, ?_, fun direction message => ⟨fun listed => ?_, fun needed => ?_⟩, ?_⟩
  · rw [records, fileGranted, split, List.map_append, parts]
    rfl
  · rw [names]
    exact Registry.nodup_grant _ _ _
  · obtain ⟨demand, -, same⟩ := List.mem_map.mp listed
    have isForShape := isFor demand
    rw [same] at isForShape
    exact isForShape.needed apart.sound
  · exact mem_declared _ _ (apart.exists_granted_of_needed needed)
  · intro message listed
    obtain ⟨found, unknown⟩ := Schema.message?_of_mem_contentsOf listed
    have isTaken : ⟨message.fullName, false, false⟩ ∈ view.fileTaken session files :=
      takes.queued _ (List.mem_append_left _ (List.mem_map.mpr ⟨message, listed, rfl⟩))
    have demanded := defaultDemand_mem_demands session.options found
      (isWellKnown_eq_false_iff.mpr unknown)
    exact mem_declared _ _ (apart.exists_granted
      (List.mem_flatMap.mpr ⟨_, isTaken, demanded⟩) (isFor_defaultDemand _ found))

end Viewpoint

namespace Schema

/-- In a run with a result, a package whose claims never collide, and whose needed messages have
different names for their shapes, gets a file with these records: the shapes of the needed messages
for a direction, and the default shapes of all messages that the file has to declare. Each of them is
written, their lines open no other records, and no two of them have the same name. -/
theorem generate_declares_needed (schema : Schema) (requested : List String) (options : Options)
    (generated : List GeneratedFile) (done : schema.generate requested options = .ok generated) :
    ∃ files, schema.requestedFiles requested = .ok files ∧
      generated = (schema.starts files { options } (packagesOf files)).map (fun (package, start) =>
        (schema.packageOutput files start package).1.render) ∧
      ∀ package start, (package, start) ∈ schema.starts files { options } (packagesOf files) →
        let view : Viewpoint := ⟨schema, package⟩
        let own := files.filter (·.package = package)
        let file := (schema.packageOutput files start package).1.file
        (∀ answer ∈ view.fileAnswers start own, ∀ owner, answer ≠ .collision owner) →
        (∀ direction message, view.Needed direction (plansOf file.services) message →
          Function.Injective (view.typeName options message)) →
        ∃ declared : List (Message × Option Direction),
          file.messages ++ file.variants = declared.map (fun (message, shape) =>
            view.recordOf options message shape) ∧
          file.render.recordNames = declared.map (fun (message, shape) =>
            view.typeName options message shape) ∧
          (∀ message shape, (message, shape) ∈ declared →
            (view.recordOf options message shape).render <:+: file.render) ∧
          file.render.recordNames.Nodup ∧
          (∀ direction message, (message, some direction) ∈ declared ↔
            view.Needed direction (plansOf file.services) message) ∧
          ∀ message ∈ (schema.contents own).messages, (message, none) ∈ declared := by
  obtain ⟨files, found, rendered⟩ := generate_eq_map_starts done
  refine ⟨files, found, rendered, ?_⟩
  intro package start listed view own file answers names
  obtain ⟨same, sound, free⟩ :=
    fresh_of_mem_starts files (nodup_packagesOf files) Memo.sound_empty (fun _ _ _ => rfl) listed
  have services : file.services = view.codesOf start.options own :=
    Viewpoint.services_packageFile sound own
  obtain rfl : start.options = options := same
  rw [services] at names ⊢
  have apart : view.Apart start own := ⟨sound, free, answers, names⟩
  obtain ⟨declared, records, distinct, shapes, defaults⟩ := apart.exists_declared
  have inLines : file.render.recordNames = declared.map fun (message, shape) =>
      view.typeName start.options message shape := by
    have sameRecords : file.messages ++ file.variants = _ := records
    rw [PackageFile.recordNames_render, sameRecords, List.map_map]
    exact List.map_congr_left fun (message, shape) _ => Viewpoint.recordOf_name message shape
  refine ⟨declared, records, inLines, ?_, inLines ▸ distinct, shapes, defaults⟩
  intro message shape isDeclared
  apply infix_of_mem_records
  rw [show file.messages ++ file.variants = _ from records]
  exact List.mem_map.mpr ⟨_, isDeclared, rfl⟩

/-- A folder, which may lie in another one. -/
def folder : Message where
  declared := ⟨"disk", "Folder"⟩
  fields := [{ name := "name", kind := .scalar .string },
    { name := "secret", kind := .scalar .string, behaviors := [.inputOnly] },
    { name := "parent", kind := .message "disk.Folder" }]

def getFolder : Method where
  name := "GetFolder"
  input := "disk.Folder"
  output := "disk.Folder"
  binding := some ⟨"get", "/v1/\x7bname=folders/*\x7d", ""⟩

def diskFile : SchemaFile where
  name := "disk.proto"
  package := "disk"
  messages := [folder]
  services := [{ declared := ⟨"disk", "Folders"⟩, methods := [getFolder] }]

def diskSchema : Schema :=
  .ofFiles [diskFile]

theorem eq_folder_of_message? {name : String} {message : Message}
    (found : diskSchema.message? name = some message) : message = folder := by
  obtain ⟨file, isFile, inFile⟩ := mem_files_of_message? found
  obtain rfl := List.mem_singleton.mp isFile
  exact List.mem_singleton.mp inFile

theorem discriminates_folder : diskSchema.discriminates "disk.Folder" = true :=
  discriminates_iff.mpr ⟨folder, rfl, folder, .refl, by decide⟩

/-- The three shapes of a folder have names of their own. -/
theorem injective_typeName_folder :
    Function.Injective ((Viewpoint.mk diskSchema "disk").typeName {} folder) := by
  rintro (_ | _ | _) (_ | _ | _) <;> decide

theorem exists_generate_diskSchema :
    ∃ generated, diskSchema.generate ["disk.proto"] {} = .ok generated :=
  exists_generate_of_faultless {} (by decide) rfl

theorem mem_starts_diskSchema :
    ("disk", {}) ∈ diskSchema.starts [diskFile] {} (packagesOf [diskFile]) := by
  have packages : packagesOf [diskFile] = ["disk"] := by decide
  rw [packages]
  exact List.mem_cons_self

/-- A folder is read and given back, so it is written in both directions. -/
theorem generate_diskSchema :
    (∃ generated, diskSchema.generate ["disk.proto"] {} = .ok generated) ∧
      let view : Viewpoint := ⟨diskSchema, "disk"⟩
      let file := (diskSchema.packageOutput [diskFile] {} "disk").1.file
      (view.shape {} .request folder).render <:+: file.render ∧
        (view.shape {} .response folder).render <:+: file.render ∧
        "Folder__Request" ∈ file.render.recordNames ∧
        "Folder__Response" ∈ file.render.recordNames := by
  obtain ⟨generated, done⟩ := exists_generate_diskSchema
  refine ⟨⟨generated, done⟩, ?_⟩
  intro view file
  obtain ⟨files, found, -, each⟩ := generate_declares_needed diskSchema _ {} _ done
  obtain rfl : [diskFile] = files := Except.ok.inj found
  have owners : ∀ demand ∈ view.claims {} (view.fileTaken {} [diskFile]),
      demand.owner = "disk.Folder" := by
    intro demand claimed
    obtain ⟨usage, -, demanded⟩ := List.mem_flatMap.mp claimed
    obtain ⟨message, isMessage, -, rfl | ⟨direction, -, -, rfl⟩⟩ :=
      Viewpoint.cases_of_mem_demands demanded <;> rw [eq_folder_of_message? isMessage] <;> rfl
  have free : ∀ name owner, ({} : Registry).owner? "disk" name = some owner →
      owner = "disk.Folder" := by
    intro name owner owned
    cases owned
  have answers := Registry.answers_ne_collision_of_owner free owners
  have services : file.services = view.codesOf {} [diskFile] :=
    Viewpoint.services_packageFile Memo.sound_empty [diskFile]
  have names (message : Message) (found : diskSchema.message? message.fullName = some message) :
      Function.Injective (view.typeName {} message) := by
    rw [eq_folder_of_message? found]
    exact injective_typeName_folder
  obtain ⟨declared, -, inLines, written, -, shapes, -⟩ :=
    each "disk" {} mem_starts_diskSchema answers
      fun direction message needed => names message needed.separate_and_found.1
  have plan : ∃ plan ∈ plansOf file.services, plan.method = getFolder := by
    rw [services]
    exact ⟨_, List.mem_cons_self, rfl⟩
  have needed (direction : Direction) : view.Needed direction (plansOf file.services) folder := by
    obtain ⟨plan, planned, same⟩ := plan
    refine .used planned ?_ (by decide) discriminates_folder
    cases direction <;> rw [Direction.messageOf, same] <;> rfl
  have declares (direction : Direction) : (folder, some direction) ∈ declared :=
    (shapes direction folder).mpr (needed direction)
  have named (direction : Direction) :
      view.typeName {} folder (some direction) ∈ file.render.recordNames := by
    rw [inLines]
    exact List.mem_map.mpr ⟨_, declares direction, rfl⟩
  have request : view.typeName {} folder (some .request) = "Folder__Request" := by decide
  have response : view.typeName {} folder (some .response) = "Folder__Response" := by decide
  exact ⟨written folder _ (declares .request), written folder _ (declares .response),
    request ▸ named .request, response ▸ named .response⟩

end Schema

end HttpClientGen
