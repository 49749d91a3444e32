import HttpClientGen.Proofs.Client.Outcome
import HttpClientGen.Proofs.Separation

/-!
# When a run fails, and with which faults

A run fails at the first requested file that the schema does not have. If there is no such file, it
succeeds exactly if it accepts every method of the requested files, and otherwise it reports all
faults of these methods, package by package and in the order of the declarations. A method with a
fault is in no interface and in no client.
-/

namespace HttpClientGen.Schema

variable {schema : Schema}

/-- The faults of all methods in some files, in the order of their declaration. -/
def methodFaults (schema : Schema) (files : List SchemaFile) : List GenerationError :=
  files.flatMap fun file => file.services.flatMap fun service =>
    service.methods.flatMap (service.faults schema)

theorem faultsOf_eq_methodFaults (schema : Schema) (files : List SchemaFile) :
    schema.faultsOf files = schema.methodFaults files := by
  simp only [faultsOf, methodFaults, List.flatMap_assoc, Service.errors_eq_flatMap_faults]

theorem methodFaults_eq_nil_iff {files : List SchemaFile} :
    schema.methodFaults files = [] ↔
      ∀ file ∈ files, ∀ service ∈ file.services, ∀ method ∈ service.methods,
        schema.Accepts method := by
  simp only [methodFaults, List.flatMap_eq_nil_iff, Service.faults_eq_nil_iff]

theorem requestedFiles_of_find? {requested : List String} {missing : String}
    (first : requested.find? (fun name => (schema.file? name).isNone) = some missing) :
    schema.requestedFiles requested = .error (.fileNotFound missing) := by
  induction requested with
  | nil => cases first
  | cons name names ih =>
    cases found : schema.file? name with
    | none =>
      rw [List.find?_cons_of_pos (by simp [found])] at first
      obtain rfl := Option.some.inj first
      simp [requestedFiles, found]
    | some file =>
      rw [List.find?_cons_of_neg (by simp [found])] at first
      simp [requestedFiles, found, ih first, Functor.map, Except.map]

/-- All packages together have a fault if some method of the files has one. -/
theorem packageFaults_eq_nil_iff {files : List SchemaFile} :
    ((packagesOf files).flatMap fun package =>
        schema.methodFaults (files.filter (·.package = package))) = [] ↔
      schema.methodFaults files = [] := by
  simp only [List.flatMap_eq_nil_iff, methodFaults_eq_nil_iff, mem_packagesOf_iff]
  constructor
  · intro faultless file listed
    exact faultless file.package ⟨file, listed, rfl⟩ file (by simp [listed])
  · rintro faultless package - file listed
    exact faultless file (List.mem_of_mem_filter listed)

/-- The interface and the factory of a service name the methods that it covers. -/
theorem services_separateRun (schema : Schema) (files : List SchemaFile) (options : Options)
    (package : String) :
    (schema.separateRun files options package).1.services.map (fun code =>
        (code.interface.signatures.map (·.name), code.factory.functions.map (·.method))) =
      ((files.filter (·.package = package)).flatMap (·.services)).map fun service =>
        ((service.methods.filter (service.covers schema)).map (·.name),
          (service.methods.filter (service.covers schema)).map (·.name)) := by
  let view : Viewpoint := ⟨schema, package⟩
  let own := files.filter (·.package = package)
  have sound : Memo.Sound ({ options } : Session).memo view.schema := Memo.sound_empty
  have codes : (schema.separateRun files options package).1.services =
      view.codesOf options own := Viewpoint.services_packageFile sound own
  rw [codes, Viewpoint.codesOf, List.map_map]
  refine List.map_congr_left fun service _ => ?_
  simp only [← Service.map_method_plans, List.map_map]
  simp only [Function.comp_def, Viewpoint.codeOf, List.map_map, Viewpoint.signatureOf,
    Viewpoint.functionOf, view]

/-- A run reports the first missing file. Where all requested files are there, it succeeds exactly
if every method in them is accepted, and otherwise it gives the faults of all methods, with the
packages in ascending order and everything else in the order of request and declaration. Interfaces
and clients leave every method out that has a fault. -/
theorem generate_eq_ok_or_faults (schema : Schema) (requested : List String) (options : Options) :
    (∀ missing, requested.find? (fun name => (schema.file? name).isNone) = some missing →
      schema.generate requested options = .error (.fileNotFound missing)) ∧
    ((∀ name ∈ requested, (schema.file? name).isSome) →
      let files := requested.filterMap schema.file?
      (packagesOf files).Pairwise (· < ·) ∧
      (∀ package, package ∈ packagesOf files ↔ ∃ file ∈ files, file.package = package) ∧
      ((∃ generated, schema.generate requested options = .ok generated) ↔
        ∀ file ∈ files, ∀ service ∈ file.services, ∀ method ∈ service.methods,
          schema.Accepts method) ∧
      ((∀ generated, schema.generate requested options ≠ .ok generated) →
        schema.generate requested options = .error (.faults
          ((packagesOf files).flatMap fun package =>
            (files.filter (·.package = package)).flatMap fun file =>
              file.services.flatMap fun service =>
                service.methods.flatMap (service.faults schema)))) ∧
      ∀ package,
        (schema.separateRun files options package).1.services.map (fun code =>
            (code.interface.signatures.map (·.name), code.factory.functions.map (·.method))) =
          ((files.filter (·.package = package)).flatMap (·.services)).map fun service =>
            ((service.methods.filter (service.covers schema)).map (·.name),
              (service.methods.filter (service.covers schema)).map (·.name))) := by
  constructor
  · intro missing first
    rw [generate, outputs, requestedFiles_of_find? first]
    rfl
  · intro present files
    have run := generate_of_present options present
    simp only [errors_separateRun, faultsOf_eq_methodFaults] at run
    refine ⟨pairwise_packagesOf files, fun _ => mem_packagesOf_iff, ?_, ?_,
      schema.services_separateRun files options⟩
    · rw [run, ← methodFaults_eq_nil_iff, ← packageFaults_eq_nil_iff]
      split
      · next none => exact ⟨fun _ => none, fun _ => ⟨_, rfl⟩⟩
      · next some => exact iff_of_false (by simp) some
    · intro failed
      rw [run] at failed ⊢
      split
      · next none =>
        rw [if_pos none] at failed
        exact absurd rfl (failed _)
      · rfl

/-- A service with a stream, whose template nobody reads, and a method with two unknown fields. -/
def booksService : Service where
  declared := ⟨"shelf", "Books"⟩
  methods := [
    { name := "WatchBooks", input := "shelf.Book", output := "shelf.Book", serverStreaming := true
      binding := some ⟨"get", "books", ""⟩ },
    { name := "MoveBook", input := "shelf.Book", output := "shelf.Book"
      binding := some ⟨"post", "/v1/\x7bname\x7d/\x7btitle\x7d", "author"⟩ }]

/-- A service with a template that does not start with a slash, and with an unknown input. -/
def authorsService : Service where
  declared := ⟨"author", "Authors"⟩
  methods := [
    { name := "GetAuthor", input := "shelf.Book", output := "shelf.Book"
      binding := some ⟨"get", "authors", ""⟩ },
    { name := "FindAuthor", input := "author.Query", output := "shelf.Book"
      binding := some ⟨"get", "/v1/authors", ""⟩ }]

def faultySchema : Schema :=
  .ofFiles [
    { name := "shelf.proto"
      package := "shelf"
      messages := [{ declared := ⟨"shelf", "Book"⟩
                     fields := [{ name := "name", kind := .scalar .string }] }]
      services := [booksService] },
    { name := "author.proto"
      package := "author"
      services := [authorsService] }]

/-- The package `author` comes first, and the two unknown fields come in the order of the template
and the body. -/
theorem generate_faultySchema :
    faultySchema.generate ["shelf.proto", "lost.proto", "gone.proto"] {} =
        .error (.fileNotFound "lost.proto") ∧
      faultySchema.generate ["shelf.proto", "author.proto"] {} = .error (.faults [
        .templateSyntax "author.Authors.GetAuthor" ⟨"authors", 0, .missingSlash⟩,
        .unresolvedMessage "author.Authors.FindAuthor" "author.Query",
        .unresolvedFieldPath "shelf.Books.MoveBook" ⟨["title"]⟩ (.noField "title" "shelf.Book"),
        .unresolvedFieldPath "shelf.Books.MoveBook" ⟨["author"]⟩
          (.noField "author" "shelf.Book")]) := by
  constructor
  · exact (generate_eq_ok_or_faults faultySchema _ {}).1 "lost.proto" (by decide)
  · have present : ∀ name ∈ ["shelf.proto", "author.proto"], (faultySchema.file? name).isSome := by
      decide
    obtain ⟨-, -, succeeds, fails, -⟩ := (generate_eq_ok_or_faults faultySchema _ {}).2 present
    refine (fails fun generated done => ?_).trans ?_
    · have accepted := succeeds.mp ⟨generated, done⟩
      have faultless := methodFaults_eq_nil_iff.mpr accepted
      cases faultless
    · rfl

end HttpClientGen.Schema
