import HttpClientGen.Proofs.Client
import HttpClientGen.Proofs.Trace

/-!
# Output files and the session they are written in

The services of an output file do not depend on the session at all. Writing the file serves all
messages that the package has to declare and all that its planned methods use, it leaves the names
of other packages alone, and the faults that it adds are those of its services.
-/

namespace HttpClientGen

def Schema.faultsOf (schema : Schema) (files : List SchemaFile) : List GenerationError :=
  (files.flatMap (·.services)).flatMap (·.errors schema)

namespace Viewpoint

variable {view : Viewpoint} {session : Session}

/-- What the output for some files has to declare in default shape. -/
def declaredUsages (view : Viewpoint) (files : List SchemaFile) : List Usage :=
  (view.schema.contents files).messages.map fun message => ⟨message.fullName, false, false⟩

/-- The services of some files as they are written. -/
def codesOf (view : Viewpoint) (options : Options) (files : List SchemaFile) : List ServiceCode :=
  (files.flatMap (·.services)).map (view.codeOf options)

def methodUsages (view : Viewpoint) (options : Options) (files : List SchemaFile) : List Usage :=
  (plansOf (view.codesOf options files)).flatMap planUsages

theorem mem_methodUsages_iff {options : Options} {files : List SchemaFile} {usage : Usage} :
    usage ∈ view.methodUsages options files ↔ ∃ service ∈ files.flatMap (·.services),
      ∃ plan ∈ service.plans view.schema, usage ∈ planUsages plan := by
  rw [methodUsages, plansOf, codesOf, List.flatMap_map, List.flatMap_assoc]
  simp only [List.mem_flatMap, codeOf]

/-- The output file whose records are those of given demands. -/
def fileOf (view : Viewpoint) (options : Options) (files : List SchemaFile)
    (defaults variants : List Demand) : PackageFile where
  wellKnown := (view.schema.contents files).wellKnown
  enums := (view.schema.contents files).enums.map fun enumeration =>
    .ofEnumeration (view.enumName enumeration.fullName) enumeration
  messages := defaults.map (·.record)
  services := view.codesOf options files
  variants := variants.map (·.record)

/-- The steps in which an output file is written. -/
theorem packageFile_eq (view : Viewpoint) (session : Session) (files : List SchemaFile) :
    view.packageFile session files =
      let defaults := view.synthesizeAll session (view.declaredUsages files)
      let codes := view.serviceCodes defaults.2 (files.flatMap (·.services))
      let variants := view.synthesizeAll codes.2 ((plansOf codes.1).flatMap planUsages)
      ({ wellKnown := (view.schema.contents files).wellKnown
         enums := (view.schema.contents files).enums.map fun enumeration =>
           .ofEnumeration (view.enumName enumeration.fullName) enumeration
         messages := defaults.1
         services := codes.1
         variants := variants.1 }, variants.2) :=
  rfl

/-- The session in which the services of an output file have been written, but not yet the shapes
that their methods need. -/
def afterServices (view : Viewpoint) (session : Session) (files : List SchemaFile) : Session :=
  (view.serviceCodes (view.synthesizeAll session (view.declaredUsages files)).2
    (files.flatMap (·.services))).2

/-- The entries that are taken from a queue while an output file is written. -/
def fileTaken (view : Viewpoint) (session : Session) (files : List SchemaFile) : List Usage :=
  view.takenAll session (view.declaredUsages files) ++
    view.takenAll (view.afterServices session files) (view.methodUsages session.options files)

/-- Writing an output file takes all messages that it has to declare, and all that its methods use.
The file is made up of what the claims for these are granted. -/
theorem packageFile_takes (sound : session.memo.Sound view.schema) (files : List SchemaFile) :
    view.Takes session.options
        (view.declaredUsages files ++ view.methodUsages session.options files)
        session.registry (view.fileTaken session files) ∧
      (∃ defaults variants,
        (view.grants session.options session.registry (view.fileTaken session files)).1 =
          defaults ++ variants ∧
        (view.packageFile session files).1 =
          view.fileOf session.options files defaults variants) ∧
      (view.packageFile session files).2.registry =
        (view.grants session.options session.registry (view.fileTaken session files)).2 ∧
      (view.packageFile session files).2.options = session.options ∧
      (view.packageFile session files).2.errors = session.errors ++ view.schema.faultsOf files ∧
      (view.packageFile session files).2.memo.Sound view.schema := by
  obtain ⟨takes, declared, registry, keeps⟩ :=
    synthesizeAll_takes sound (view.declaredUsages files)
  obtain ⟨codes, recalls⟩ := serviceCodes_spec keeps.sound (files.flatMap (·.services))
  rw [keeps.options] at codes
  obtain ⟨takes', needed, registry', keeps'⟩ :=
    synthesizeAll_takes recalls.sound (view.methodUsages session.options files)
  have options := recalls.options.trans keeps.options
  have between := recalls.registry.trans registry
  rw [options, between] at takes' needed registry'
  rw [packageFile_eq, fileTaken, grants_append]
  simp only [codes, declared]
  refine ⟨takes.append takes', ⟨_, _, rfl, ?_⟩, registry', ?_, ?_, keeps'.sound⟩
  · rw [fileOf]
    exact congrArg (PackageFile.mk _ _ _ _) needed
  · exact keeps'.options.trans options
  · refine keeps'.errors.trans (recalls.errors.trans ?_)
    rw [Session.report, keeps.errors]
    rfl

theorem services_packageFile (sound : session.memo.Sound view.schema) (files : List SchemaFile) :
    (view.packageFile session files).1.services = view.codesOf session.options files := by
  obtain ⟨-, ⟨_, _, -, parts⟩, -⟩ := packageFile_takes sound files
  exact congrArg PackageFile.services parts

/-- Where every message that an output file has to declare, and every message that its methods use,
is served by two runs, the file is made up of what these runs have granted. -/
theorem packageFile_serves (sound : session.memo.Sound view.schema) (files : List SchemaFile) :
    ∃ defaults variants,
      (view.packageFile session files).1 =
        view.fileOf session.options files defaults variants ∧
      view.Serves session.options
        (view.declaredUsages files ++ view.methodUsages session.options files)
        session.registry (view.packageFile session files).2.registry (defaults ++ variants) ∧
      (view.packageFile session files).2.options = session.options ∧
      (view.packageFile session files).2.errors = session.errors ++ view.schema.faultsOf files ∧
      (view.packageFile session files).2.memo.Sound view.schema := by
  obtain ⟨takes, ⟨defaults, variants, granted, parts⟩, registry, rest⟩ :=
    packageFile_takes sound files
  refine ⟨defaults, variants, parts, ?_, rest⟩
  rw [registry, ← granted]
  exact takes.serves

end Viewpoint

end HttpClientGen
