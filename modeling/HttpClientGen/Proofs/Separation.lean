import HttpClientGen.Generation
import HttpClientGen.Proofs.Alike
import HttpClientGen.Proofs.Ascending
import HttpClientGen.Proofs.Except

/-!
# Packages do not influence each other

All packages of a run share one session, with the type names claimed so far, the answers remembered
and the faults found. Nothing of that shows: the output for a package is the one that it has in a
session of its own, and the faults of the run are those of the packages, one after the other. Hence
it does not matter either how the files of different packages are mixed in the request.
-/

namespace HttpClientGen.Schema

variable {schema : Schema}

/-- The output file of a package, and the session after it, if no other package comes before. -/
def separateRun (schema : Schema) (files : List SchemaFile) (options : Options)
    (package : String) : PackageFile × Session :=
  (Viewpoint.mk schema package).packageFile { options } (files.filter (·.package = package))

theorem requestedFiles_eq_ok_iff {requested : List String} {files : List SchemaFile} :
    schema.requestedFiles requested = .ok files ↔
      (∀ name ∈ requested, (schema.file? name).isSome) ∧
        files = requested.filterMap schema.file? := by
  induction requested generalizing files with
  | nil => simp [requestedFiles]
  | cons name names ih =>
    cases found : schema.file? name with
    | none => simp [requestedFiles, found]
    | some file =>
      simp only [requestedFiles, found, map_eq_ok_iff, ih, List.forall_mem_cons,
        Option.isSome_some, true_and, List.filterMap_cons]
      constructor
      · rintro ⟨others, ⟨present, rfl⟩, rfl⟩
        exact ⟨present, rfl⟩
      · rintro ⟨present, rfl⟩
        exact ⟨_, ⟨present, rfl⟩, rfl⟩

/-- The faults of a package are those of its services. -/
theorem errors_separateRun (schema : Schema) (files : List SchemaFile) (options : Options)
    (package : String) :
    (schema.separateRun files options package).2.errors =
      schema.faultsOf (files.filter (·.package = package)) := by
  let view : Viewpoint := ⟨schema, package⟩
  have empty : Memo.Sound ({ options } : Session).memo view.schema := Memo.sound_empty
  obtain ⟨_, _, -, -, -, errors, -⟩ :=
    view.packageFile_serves empty (files.filter (·.package = package))
  exact errors

/-- A package whose type names are all free is written as it would be in a session of its own. The
session keeps its options, gains the faults of the package, and stays free where it was free for
other packages. -/
theorem packageOutput_eq_separate (files : List SchemaFile) {package : String} {session : Session}
    (sound : session.memo.Sound schema)
    (free : ∀ name, session.registry.owner? package name = none) :
    (schema.packageOutput files session package).1 =
        ⟨package, (schema.separateRun files session.options package).1⟩ ∧
      (schema.packageOutput files session package).2.options = session.options ∧
      (schema.packageOutput files session package).2.errors =
        session.errors ++ (schema.separateRun files session.options package).2.errors ∧
      (schema.packageOutput files session package).2.memo.Sound schema ∧
      ∀ other ≠ package, ∀ name,
        (schema.packageOutput files session package).2.registry.owner? other name =
          session.registry.owner? other name := by
  let view : Viewpoint := ⟨schema, package⟩
  let own := files.filter (·.package = package)
  have alike : Session.Alike view.schema view.schema view.package { options := session.options }
      session := ⟨rfl, free, Memo.sound_empty, sound⟩
  have same : (view.packageFile session own).1 =
      (schema.separateRun files session.options package).1 :=
    Viewpoint.packageFile_alike (.refl view) (fun _ _ _ _ => Set.mem_univ _) alike
  obtain ⟨_, _, -, serves, options, errors, soundAfter⟩ :=
    Viewpoint.packageFile_serves alike.secondSound own
  refine ⟨congrArg (PackageOutput.mk package) same, options, ?_, soundAfter, ?_⟩
  · rw [errors_separateRun]
    exact errors
  · exact fun other differs name => serves.owner?_of_ne differs name

/-- Writing one package leaves the others as free as they were. -/
theorem free_after_packageOutput (files : List SchemaFile) {package : String}
    {packages : List String} (distinct : (package :: packages).Nodup) {session : Session}
    (sound : session.memo.Sound schema)
    (free : ∀ other ∈ package :: packages, ∀ name, session.registry.owner? other name = none) :
    ∀ other ∈ packages, ∀ name,
      (schema.packageOutput files session package).2.registry.owner? other name = none := by
  intro other listed name
  obtain ⟨-, -, -, -, others⟩ :=
    packageOutput_eq_separate files sound (free package List.mem_cons_self)
  have differs : other ≠ package := by
    rintro rfl
    exact (List.nodup_cons.mp distinct).1 listed
  rw [others other differs name]
  exact free other (List.mem_cons_of_mem package listed) name

/-- Packages whose type names are all free are written as they would be in sessions of their own. -/
theorem packageOutputs_eq_separate (files : List SchemaFile) {packages : List String}
    (distinct : packages.Nodup) {session : Session} (sound : session.memo.Sound schema)
    (free : ∀ package ∈ packages, ∀ name, session.registry.owner? package name = none) :
    (schema.packageOutputs files session packages).1 =
        packages.map (fun package =>
          ⟨package, (schema.separateRun files session.options package).1⟩) ∧
      (schema.packageOutputs files session packages).2.errors = session.errors ++
        packages.flatMap fun package =>
          (schema.separateRun files session.options package).2.errors := by
  induction packages generalizing session with
  | nil => simp [packageOutputs]
  | cons package packages ih =>
    obtain ⟨output, options, errors, soundAfter, -⟩ :=
      packageOutput_eq_separate files sound (free package List.mem_cons_self)
    obtain ⟨outputsRest, errorsRest⟩ := ih (List.nodup_cons.mp distinct).2 soundAfter
      (free_after_packageOutput files distinct sound free)
    rw [options] at outputsRest errorsRest
    rw [packageOutputs]
    constructor
    · rw [List.map_cons, ← outputsRest, ← output]
    · rw [List.flatMap_cons, ← List.append_assoc, ← errors]
      exact errorsRest

/-- Some packages, each with the session in which it is written. -/
def starts (schema : Schema) (files : List SchemaFile) (session : Session) :
    List String → List (String × Session)
  | [] => []
  | package :: packages =>
    (package, session) ::
      schema.starts files (schema.packageOutput files session package).2 packages

theorem packageOutputs_eq_map_starts (files : List SchemaFile) (session : Session)
    (packages : List String) :
    (schema.packageOutputs files session packages).1 =
      (schema.starts files session packages).map fun (package, start) =>
        (schema.packageOutput files start package).1 := by
  induction packages generalizing session with
  | nil => rfl
  | cons package packages ih =>
    rw [packageOutputs, starts, List.map_cons, ← ih]

/-- A package is written in a session with the options of the run, with right answers, and without
any name of that package. -/
theorem fresh_of_mem_starts (files : List SchemaFile) {packages : List String}
    (distinct : packages.Nodup) {session : Session} (sound : session.memo.Sound schema)
    (free : ∀ package ∈ packages, ∀ name, session.registry.owner? package name = none)
    {package : String} {start : Session}
    (listed : (package, start) ∈ schema.starts files session packages) :
    start.options = session.options ∧ start.memo.Sound schema ∧
      ∀ name, start.registry.owner? package name = none := by
  induction packages generalizing session with
  | nil => cases listed
  | cons first packages ih =>
    rcases List.mem_cons.mp listed with same | later
    · obtain ⟨rfl, rfl⟩ := Prod.mk.inj same
      exact ⟨rfl, sound, free package List.mem_cons_self⟩
    · obtain ⟨-, options, -, soundAfter, -⟩ :=
        packageOutput_eq_separate files sound (free first List.mem_cons_self)
      obtain ⟨same, fresh⟩ := ih (List.nodup_cons.mp distinct).2 soundAfter
        (free_after_packageOutput files distinct sound free) later
      exact ⟨same.trans options, fresh⟩

theorem mem_packagesOf_iff {files : List SchemaFile} {package : String} :
    package ∈ packagesOf files ↔ ∃ file ∈ files, file.package = package := by
  rw [packagesOf, mem_ascending_id_iff, List.mem_map]

theorem pairwise_packagesOf (files : List SchemaFile) : (packagesOf files).Pairwise (· < ·) :=
  pairwise_ascending _

theorem nodup_packagesOf (files : List SchemaFile) : (packagesOf files).Nodup :=
  (pairwise_packagesOf files).imp fun less => ne_of_lt less

theorem packageOutputs_packagesOf (schema : Schema) (files : List SchemaFile) (options : Options) :
    (schema.packageOutputs files { options } (packagesOf files)).1 =
        (packagesOf files).map (fun package =>
          ⟨package, (schema.separateRun files options package).1⟩) ∧
      (schema.packageOutputs files { options } (packagesOf files)).2.errors =
        (packagesOf files).flatMap fun package =>
          (schema.separateRun files options package).2.errors :=
  packageOutputs_eq_separate files (nodup_packagesOf files) Memo.sound_empty (fun _ _ _ => rfl)

/-- A run gives an output for every package if the schema has all files and no package has faults
of its own; otherwise it gives none. -/
theorem outputs_of_present {requested : List String} (options : Options)
    (present : ∀ name ∈ requested, (schema.file? name).isSome) :
    schema.outputs requested options =
      let files := requested.filterMap schema.file?
      let errors := (packagesOf files).flatMap fun package =>
        (schema.separateRun files options package).2.errors
      if errors = [] then
        .ok ((packagesOf files).map fun package =>
          ⟨package, (schema.separateRun files options package).1⟩)
      else .error (.faults errors) := by
  obtain ⟨outputs, errors⟩ :=
    schema.packageOutputs_packagesOf (requested.filterMap schema.file?) options
  rw [Schema.outputs, requestedFiles_eq_ok_iff.mpr ⟨present, rfl⟩]
  simp only [bind, Except.bind, ← errors]
  split
  · exact congrArg Except.ok outputs
  · rfl

/-- A run with a result has found all requested files, and gives what their packages give in
sessions of their own. -/
theorem outputs_eq_of_ok {requested : List String} {options : Options}
    {outputs : List PackageOutput} (done : schema.outputs requested options = .ok outputs) :
    outputs = (packagesOf (requested.filterMap schema.file?)).map fun package =>
      ⟨package, (schema.separateRun (requested.filterMap schema.file?) options package).1⟩ := by
  obtain ⟨files, found, -⟩ := bind_eq_ok_iff.mp done
  obtain ⟨present, -⟩ := requestedFiles_eq_ok_iff.mp found
  rw [outputs_of_present options present] at done
  dsimp only at done
  split at done
  · exact (Except.ok.inj done).symm
  · cases done

theorem generate_of_present {requested : List String} (options : Options)
    (present : ∀ name ∈ requested, (schema.file? name).isSome) :
    schema.generate requested options =
      let files := requested.filterMap schema.file?
      let errors := (packagesOf files).flatMap fun package =>
        (schema.separateRun files options package).2.errors
      if errors = [] then
        .ok ((packagesOf files).map fun package =>
          ⟨outputPath package, Document.render (schema.separateRun files options package).1.render⟩)
      else .error (.faults errors) := by
  rw [generate, outputs_of_present options present]
  dsimp only
  split
  · simp only [Functor.map, Except.map, List.map_map]
    rfl
  · rfl

/-- A run has a result if the schema has all requested files and the services in them no faults. -/
theorem exists_generate_of_faultless {requested : List String} (options : Options)
    (present : ∀ name ∈ requested, (schema.file? name).isSome)
    (faultless : schema.faultsOf (requested.filterMap schema.file?) = []) :
    ∃ generated, schema.generate requested options = .ok generated := by
  have none : ((packagesOf (requested.filterMap schema.file?)).flatMap fun package =>
      (schema.separateRun (requested.filterMap schema.file?) options package).2.errors) = [] := by
    simp only [errors_separateRun, List.flatMap_eq_nil_iff]
    intro package _
    refine List.flatMap_eq_nil_iff.mpr fun service listed => ?_
    obtain ⟨file, isFile, inFile⟩ := List.mem_flatMap.mp listed
    exact List.flatMap_eq_nil_iff.mp faultless service
      (List.mem_flatMap.mpr ⟨file, List.mem_of_mem_filter isFile, inFile⟩)
  rw [generate_of_present options present]
  exact ⟨_, if_pos none⟩

/-- A run with a result gives the outputs of the packages, each written in the session that the
packages before have left. -/
theorem generate_eq_map_starts {requested : List String} {options : Options}
    {generated : List GeneratedFile} (done : schema.generate requested options = .ok generated) :
    ∃ files, schema.requestedFiles requested = .ok files ∧
      generated = (schema.starts files { options } (packagesOf files)).map fun (package, start) =>
        (schema.packageOutput files start package).1.render := by
  obtain ⟨outputs, run, rendered⟩ := map_eq_ok_iff.mp done
  obtain ⟨files, found, rest⟩ := bind_eq_ok_iff.mp run
  refine ⟨files, found, ?_⟩
  dsimp only at rest
  split at rest
  · obtain rfl := Except.ok.inj rest
    rw [← rendered, packageOutputs_eq_map_starts, List.map_map]
    rfl
  · cases rest

/-- Which packages some files have, and what each package does with its files, is settled by the
files of each package. -/
theorem packages_and_runs_congr (schema : Schema) {files others : List SchemaFile}
    (same : ∀ package, others.filter (·.package = package) = files.filter (·.package = package)) :
    packagesOf others = packagesOf files ∧ ∀ options package,
      schema.separateRun others options package = schema.separateRun files options package := by
  constructor
  · refine ascending_id_congr fun package => ?_
    have some (list : List SchemaFile) :
        package ∈ list.map (·.package) ↔ list.filter (·.package = package) ≠ [] := by
      simp [List.filter_eq_nil_iff]
    rw [some, some, same]
  · intro options package
    rw [separateRun, separateRun, same]

/-- Where the schema has all requested files, the packages of these files, each once and in
ascending order, are written as they are in sessions of their own. If none of these separate runs
finds a fault, the result has one file for each package; otherwise it has all their faults. Mixing
the files of different packages in another way gives the same. -/
theorem generate_eq_separateRuns (schema : Schema) (requested : List String) (options : Options)
    (present : ∀ name ∈ requested, (schema.file? name).isSome) :
    let files := requested.filterMap schema.file?
    let packages := packagesOf files
    let errors := packages.flatMap fun package =>
      (schema.separateRun files options package).2.errors
    packages.Pairwise (· < ·) ∧
      (∀ package, package ∈ packages ↔ ∃ file ∈ files, file.package = package) ∧
      (schema.packageOutputs files { options } packages).1 =
        packages.map (fun package =>
          ⟨package, (schema.separateRun files options package).1⟩) ∧
      schema.generate requested options =
        (if errors = [] then
          .ok (packages.map fun package =>
            ⟨outputPath package,
              Document.render (schema.separateRun files options package).1.render⟩)
        else .error (.faults errors)) ∧
      ∀ mixed : List String, (∀ name ∈ mixed, (schema.file? name).isSome) →
        (∀ package, (mixed.filterMap schema.file?).filter (·.package = package) =
          files.filter (·.package = package)) →
        schema.generate mixed options = schema.generate requested options := by
  intro files packages errors
  refine ⟨pairwise_packagesOf files, fun _ => mem_packagesOf_iff,
    (schema.packageOutputs_packagesOf files options).1, generate_of_present options present, ?_⟩
  intro mixed mixedPresent same
  obtain ⟨samePackages, sameRuns⟩ := schema.packages_and_runs_congr same
  rw [generate_of_present options present, generate_of_present options mixedPresent]
  simp only [samePackages, sameRuns]
  rfl

/-- Two packages that both refer to a message of the first one. -/
def sharingSchema : Schema :=
  .ofFiles [
    { name := "shop.proto"
      package := "shop"
      messages := [{ declared := ⟨"shop", "Order"⟩
                     fields := [{ name := "total", kind := .message "money.Money" }] }] },
    { name := "money.proto"
      package := "money"
      messages := [{ declared := ⟨"money", "Money"⟩
                     fields := [{ name := "units", kind := .scalar .int64 }] }] },
    { name := "basket.proto"
      package := "shop"
      messages := [{ declared := ⟨"shop", "Basket"⟩
                     fields := [{ name := "total", kind := .message "money.Money" }] }] }]

/-- The file of the other package may stand between the two files of the first one, or behind. -/
theorem generate_sharingSchema :
    (∀ name ∈ ["shop.proto", "money.proto", "basket.proto"], (sharingSchema.file? name).isSome) ∧
      packagesOf (["shop.proto", "money.proto", "basket.proto"].filterMap sharingSchema.file?) =
        ["money", "shop"] ∧
      sharingSchema.generate ["shop.proto", "basket.proto", "money.proto"] {} =
        sharingSchema.generate ["shop.proto", "money.proto", "basket.proto"] {} := by
  have present : ∀ name ∈ ["shop.proto", "money.proto", "basket.proto"],
      (sharingSchema.file? name).isSome := by decide
  obtain ⟨-, -, -, -, mixed⟩ := generate_eq_separateRuns sharingSchema _ {} present
  refine ⟨present, by decide, mixed _ (by decide) fun package => ?_⟩
  by_cases money : "money" = package
  · subst money
    decide
  · simp [sharingSchema, ofFiles, addFile, empty, file?, List.filter_cons, money]

end HttpClientGen.Schema
