import HttpClientGen.Proofs.Lookup
import HttpClientGen.Proofs.Separation
import HttpClientGen.Proofs.TypeNames

/-!
# Where documentation comes from

Each block of documentation in an output file is for one declaration of the schema: it is made from
the comment of that declaration, and for fields also from the behaviours.
-/

namespace HttpClientGen

/-- The comments of a message and of its fields. -/
def Message.allComments (message : Message) : List String :=
  message.comments.toList ++ message.fields.flatMap (·.comments.toList)

def Enumeration.allComments (enumeration : Enumeration) : List String :=
  enumeration.comments.toList ++ enumeration.values.flatMap (·.comments.toList)

def Service.allComments (service : Service) : List String :=
  service.comments.toList ++ service.methods.flatMap (·.comments.toList)

def SchemaFile.allComments (file : SchemaFile) : List String :=
  file.messages.flatMap Message.allComments ++ file.enums.flatMap Enumeration.allComments ++
    file.services.flatMap Service.allComments

def Schema.allComments (schema : Schema) : List String :=
  schema.files.flatMap SchemaFile.allComments

def RecordType.docs (type : RecordType) : List DocComment :=
  type.doc :: type.properties.map (·.doc)

def UnionType.docs (type : UnionType) : List DocComment :=
  type.doc :: type.members.map (·.doc)

def ServiceInterface.docs (interface : ServiceInterface) : List DocComment :=
  interface.doc :: interface.signatures.map (·.doc)

def PackageFile.docs (file : PackageFile) : List DocComment :=
  file.enums.flatMap UnionType.docs ++ file.messages.flatMap RecordType.docs ++
    file.services.flatMap (·.interface.docs) ++ file.variants.flatMap RecordType.docs

/-- The documentation is made from one of the comments, if from any. -/
def DocComment.ComesFrom (doc : DocComment) (texts : List String) : Prop :=
  ∃ comments behaviors, doc = .of comments behaviors ∧ ∀ comment ∈ comments, comment ∈ texts

namespace DocComment.ComesFrom

variable {texts : List String}

theorem mono {doc : DocComment} {more : List String} (comes : doc.ComesFrom texts)
    (subset : texts ⊆ more) : doc.ComesFrom more := by
  obtain ⟨comments, behaviors, rfl, known⟩ := comes
  exact ⟨comments, behaviors, rfl, fun comment given => subset (known comment given)⟩

/-- A declaration and some of its parts, each documented by its own comment. -/
theorem of_parts {α : Type} {comments : Option String} {parts all : List α}
    {commentOf : α → Option String} {behaviorsOf : α → List FieldBehavior} (within : parts ⊆ all) :
    ∀ doc ∈ DocComment.of comments [] ::
        parts.map fun part => DocComment.of (commentOf part) (behaviorsOf part),
      doc.ComesFrom (comments.toList ++ all.flatMap fun part => (commentOf part).toList) := by
  refine List.forall_mem_cons.mpr ⟨⟨comments, [], rfl, fun _ given => ?_⟩, ?_⟩
  · exact List.mem_append_left _ (Option.mem_toList.mpr given)
  · intro doc listed
    obtain ⟨part, isPart, rfl⟩ := List.mem_map.mp listed
    refine ⟨commentOf part, behaviorsOf part, rfl, fun _ given => List.mem_append_right _ ?_⟩
    exact List.mem_flatMap.mpr ⟨part, within isPart, Option.mem_toList.mpr given⟩

end DocComment.ComesFrom

section Declarations

variable {view : Viewpoint} {options : Options}

theorem Viewpoint.comesFrom_defaultRecord (message : Message) :
    ∀ doc ∈ (view.defaultRecord message).docs, doc.ComesFrom message.allComments := by
  rw [RecordType.docs, defaultRecord, List.map_map]
  exact DocComment.ComesFrom.of_parts (List.Subset.refl message.fields)

theorem Viewpoint.comesFrom_shape (direction : Direction) (message : Message) :
    ∀ doc ∈ (view.shape options direction message).docs, doc.ComesFrom message.allComments := by
  have travelling : message.fieldsIn direction ⊆ message.fields := List.filter_subset_self _
  rw [RecordType.docs, shape, List.map_map]
  exact DocComment.ComesFrom.of_parts travelling

theorem UnionType.comesFrom_ofEnumeration (name : String) (enumeration : Enumeration) :
    ∀ doc ∈ (UnionType.ofEnumeration name enumeration).docs,
      doc.ComesFrom enumeration.allComments := by
  rw [docs, ofEnumeration, List.map_map]
  exact DocComment.ComesFrom.of_parts (List.Subset.refl enumeration.values)

theorem Viewpoint.comesFrom_codeOf (service : Service) :
    ∀ doc ∈ (view.codeOf options service).interface.docs, doc.ComesFrom service.allComments := by
  have planned : (service.plans view.schema).map (·.method) ⊆ service.methods := by
    intro method listed
    obtain ⟨plan, isPlan, rfl⟩ := List.mem_map.mp listed
    exact (Service.method_mem_and_input_of_mem_plans isPlan).1
  have docs : (view.codeOf options service).interface.docs = DocComment.of service.comments [] ::
      ((service.plans view.schema).map (·.method)).map fun method => .of method.comments [] := by
    rw [ServiceInterface.docs, codeOf, List.map_map, List.map_map]
    rfl
  rw [docs]
  exact DocComment.ComesFrom.of_parts planned

end Declarations

namespace Schema

variable {schema : Schema}

theorem allComments_subset_of_mem {file : SchemaFile} (isFile : file ∈ schema.files) :
    file.allComments ⊆ schema.allComments :=
  fun _ listed => List.mem_flatMap.mpr ⟨file, isFile, listed⟩

theorem allComments_subset_of_message? {name : String} {message : Message}
    (found : schema.message? name = some message) : message.allComments ⊆ schema.allComments := by
  intro comment listed
  obtain ⟨file, isFile, inFile⟩ := mem_files_of_message? found
  refine allComments_subset_of_mem isFile (List.mem_append_left _ (List.mem_append_left _ ?_))
  exact List.mem_flatMap.mpr ⟨message, inFile, listed⟩

theorem allComments_subset_of_enum? {name : String} {enumeration : Enumeration}
    (found : schema.enum? name = some enumeration) :
    enumeration.allComments ⊆ schema.allComments := by
  intro comment listed
  rw [enum?_eq_find?] at found
  have declared := List.mem_reverse.mp (List.mem_of_find?_eq_some found)
  obtain ⟨file, isFile, inFile⟩ := List.mem_flatMap.mp declared
  refine allComments_subset_of_mem isFile (List.mem_append_left _ (List.mem_append_right _ ?_))
  exact List.mem_flatMap.mpr ⟨enumeration, inFile, listed⟩

/-- Whatever an entry of the queue demands is documented by the message that is asked for. -/
theorem comesFrom_of_mem_demands {package : String} {options : Options} {usage : Usage}
    {demand : Demand} (demanded : demand ∈ (Viewpoint.mk schema package).demands options usage) :
    ∀ doc ∈ demand.record.docs, doc.ComesFrom schema.allComments := by
  obtain ⟨message, found, -, rfl | ⟨direction, -, -, rfl⟩⟩ :=
    Viewpoint.cases_of_mem_demands demanded
  · exact fun doc held => (Viewpoint.comesFrom_defaultRecord message doc held).mono
      (allComments_subset_of_message? found)
  · exact fun doc held => (Viewpoint.comesFrom_shape direction message doc held).mono
      (allComments_subset_of_message? found)

theorem comesFrom_separateRun {files : List SchemaFile} (known : files ⊆ schema.files)
    (options : Options) (package : String) :
    ∀ doc ∈ (schema.separateRun files options package).1.docs,
      doc.ComesFrom schema.allComments := by
  let view : Viewpoint := ⟨schema, package⟩
  let own := files.filter (·.package = package)
  have empty : ({ options } : Session).memo.Sound view.schema := Memo.sound_empty
  obtain ⟨-, ⟨defaults, variants, granted, parts⟩, -⟩ := Viewpoint.packageFile_takes empty own
  have records (demand : Demand) (listed : demand ∈ defaults ++ variants) :
      ∀ doc ∈ demand.record.docs, doc.ComesFrom schema.allComments := by
    rw [← granted] at listed
    obtain ⟨usage, -, demanded⟩ := Viewpoint.exists_usage_of_granted listed
    exact comesFrom_of_mem_demands demanded
  rw [separateRun, parts]
  simp only [PackageFile.docs, Viewpoint.fileOf, Viewpoint.codesOf, List.flatMap_map,
    List.forall_mem_append, List.forall_mem_flatMap]
  refine ⟨⟨⟨?_, ?_⟩, ?_⟩, ?_⟩
  · intro enumeration listed doc held
    have found := (enum?_of_mem_contentsOf listed).1
    exact (UnionType.comesFrom_ofEnumeration _ enumeration doc held).mono
      (allComments_subset_of_enum? found)
  · exact fun demand listed => records demand (List.mem_append_left _ listed)
  · intro file isFile service inFile doc held
    refine (Viewpoint.comesFrom_codeOf service doc held).mono fun comment given => ?_
    refine allComments_subset_of_mem (known (List.mem_of_mem_filter isFile)) ?_
    exact List.mem_append_right _ (List.mem_flatMap.mpr ⟨service, inFile, given⟩)
  · exact fun demand listed => records demand (List.mem_append_right _ listed)

/-- All documentation in the output comes from the comments of the schema. -/
theorem comesFrom_of_mem_outputs {requested : List String} {options : Options}
    {outputs : List PackageOutput} (done : schema.outputs requested options = .ok outputs)
    {output : PackageOutput} (listed : output ∈ outputs) :
    ∀ doc ∈ output.file.docs, doc.ComesFrom schema.allComments := by
  obtain rfl := outputs_eq_of_ok done
  obtain ⟨package, -, rfl⟩ := List.mem_map.mp listed
  refine comesFrom_separateRun (fun file member => ?_) options package
  obtain ⟨name, -, found⟩ := List.mem_filterMap.mp member
  exact (mem_files_of_file? found).1

end Schema

end HttpClientGen
