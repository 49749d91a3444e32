import HttpClientGen.Proofs.Lookup
import HttpClientGen.Proofs.Separation

/-!
# What a run depends on

A run looks up the requested files, and then only names that these files lead to. Schemas that give
the same answers for these names give the same result, be it files or faults. So it does not matter
in which order a schema holds its files, nor which files it holds that have nothing to do with the
request.
-/

namespace HttpClientGen.Schema

/-- The names that some files lead to: what they declare, the inputs and outputs of their methods,
and whatever the fields of messages under such names mention. Well-known types are no exception. -/
inductive Concerns (schema : Schema) (files : List SchemaFile) : String → Prop
  | mentioned {file : SchemaFile} {ref : TypeRef} (listed : file ∈ files)
      (mentioned : ref ∈ file.declaredRefs ++ file.methodRefs) :
      Concerns schema files ref.fullName
  | field {name : String} {message : Message} {ref : TypeRef}
      (concerned : Concerns schema files name) (found : schema.message? name = some message)
      (mentioned : ref ∈ message.refs) : Concerns schema files ref.fullName

variable {first second : Schema} {files : List SchemaFile} {requested : List String}

/-- Schemas that give the same answers for what some files lead to agree on it, since nothing leads
out of there. -/
theorem agreesOn_concerns (messages : ∀ name, first.Concerns files name →
      second.message? name = first.message? name)
    (enums : ∀ name, first.Concerns files name → second.enum? name = first.enum? name) :
    first.AgreesOn second {name | first.Concerns files name} where
  messages := messages
  enums := enums
  closed _ concerned _ found _ mentioned := .field concerned found mentioned

theorem requestedFiles_congr (same : ∀ name ∈ requested, second.file? name = first.file? name) :
    second.requestedFiles requested = first.requestedFiles requested := by
  induction requested with
  | nil => rfl
  | cons name names ih =>
    obtain ⟨here, later⟩ := List.forall_mem_cons.mp same
    rw [requestedFiles, requestedFiles, here, ih later]

/-- A package has the same output file and the same faults in schemas that agree on all that its
files mention. -/
theorem separateRun_congr {names : Set String} (agrees : first.AgreesOn second names)
    (inside : Viewpoint.Inside names files) (options : Options) (package : String) :
    (second.separateRun files options package).1 = (first.separateRun files options package).1 ∧
      (second.separateRun files options package).2.errors =
        (first.separateRun files options package).2.errors := by
  let view : Viewpoint := ⟨first, package⟩
  let other : Viewpoint := ⟨second, package⟩
  have views : view.AgreesOn other names := ⟨agrees, rfl⟩
  have own : Viewpoint.Inside names (files.filter (·.package = package)) :=
    fun file listed => inside file (List.mem_of_mem_filter listed)
  have alike : Session.Alike view.schema other.schema view.package { options } { options } :=
    ⟨rfl, fun _ => rfl, Memo.sound_empty, Memo.sound_empty⟩
  rw [errors_separateRun, errors_separateRun]
  exact ⟨Viewpoint.packageFile_alike views own alike, views.faultsOf_eq own⟩

/-- A run over the files that a request has found goes the same way in schemas that agree on what
these files mention. -/
theorem packageOutputs_congr {names : Set String} (agrees : first.AgreesOn second names)
    (inside : Viewpoint.Inside names files) (options : Options) :
    (second.packageOutputs files { options } (packagesOf files)).1 =
        (first.packageOutputs files { options } (packagesOf files)).1 ∧
      (second.packageOutputs files { options } (packagesOf files)).2.errors =
        (first.packageOutputs files { options } (packagesOf files)).2.errors := by
  obtain ⟨outputs, errors⟩ := first.packageOutputs_packagesOf files options
  obtain ⟨outputs', errors'⟩ := second.packageOutputs_packagesOf files options
  have runs := separateRun_congr agrees inside options
  rw [outputs, errors, outputs', errors']
  simp only [(runs _).1, (runs _).2, and_self]

theorem generate_congr (options : Options)
    (sameFiles : ∀ name ∈ requested, second.file? name = first.file? name)
    (agrees : first.AgreesOn second
      {name | first.Concerns (requested.filterMap first.file?) name}) :
    second.generate requested options = first.generate requested options := by
  rw [generate, generate, outputs, outputs, requestedFiles_congr sameFiles]
  cases run : first.requestedFiles requested with
  | error cause => rfl
  | ok files =>
    obtain ⟨-, rfl⟩ := requestedFiles_eq_ok_iff.mp run
    obtain ⟨sameOutputs, sameErrors⟩ := packageOutputs_congr agrees
      (fun file listed ref mentioned => Concerns.mentioned listed mentioned) options
    simp only [bind, Except.bind, sameOutputs, sameErrors]

/-- The result of a run is settled by the answers for the requested files and for the names that
these lead to. In particular, a schema whose names are distinct gives the same result as one that
holds its files in another order, and without files that are neither requested nor declare anything
that the request leads to. -/
theorem generate_eq_of_same_answers (first second : Schema) (requested : List String)
    (options : Options) :
    ((∀ name ∈ requested, second.file? name = first.file? name) →
      (∀ name, first.Concerns (requested.filterMap first.file?) name →
        second.message? name = first.message? name ∧ second.enum? name = first.enum? name) →
      second.generate requested options = first.generate requested options) ∧
    ∀ added : List SchemaFile, second.files.Perm (first.files ++ added) → second.Distinct →
      (∀ file ∈ added, file.name ∉ requested ∧
        ∀ name, first.Concerns (requested.filterMap first.file?) name →
          name ∉ file.messageNames ∧ name ∉ file.enumNames) →
      second.generate requested options = first.generate requested options := by
  constructor
  · intro sameFiles same
    exact generate_congr options sameFiles
      (agreesOn_concerns (fun name concerned => (same name concerned).1)
        fun name concerned => (same name concerned).2)
  · intro added rearranged distinct unrelated
    refine generate_congr options (fun name asked => ?_) (agreesOn_concerns ?_ ?_)
    · refine file?_of_perm rearranged distinct fun file isAdded named => ?_
      exact (unrelated file isAdded).1 (named ▸ asked)
    · exact fun name concerned => message?_of_perm rearranged distinct fun file isAdded =>
        ((unrelated file isAdded).2 name concerned).1
    · exact fun name concerned => enum?_of_perm rearranged distinct fun file isAdded =>
        ((unrelated file isAdded).2 name concerned).2

/-- Authors, and the addresses that nothing refers to, with given fields. -/
def authorFile (address : List Field) : SchemaFile where
  name := "author.proto"
  package := "people"
  messages := [
    { declared := ⟨"people", "Author"⟩
      fields := [{ name := "name", kind := .scalar .string }] },
    { declared := ⟨"people", "Address"⟩, fields := address }]

/-- Books, which know their authors. -/
def bookFile : SchemaFile where
  name := "book.proto"
  package := "shelf"
  messages := [
    { declared := ⟨"shelf", "Book"⟩
      fields := [{ name := "name", kind := .scalar .string },
        { name := "author", kind := .message "people.Author" }] }]
  services := [
    { declared := ⟨"shelf", "Books"⟩
      methods := [
        { name := "GetBook", input := "shelf.Book", output := "shelf.Book"
          binding := some ⟨"get", "/v1/\x7bname=books/*\x7d", ""⟩ }] }]

/-- Films, with which books have nothing to do. -/
def filmFile : SchemaFile where
  name := "film.proto"
  package := "shelf"
  messages := [{ declared := ⟨"shelf", "Film"⟩ }]

def librarySchema : Schema :=
  .ofFiles [bookFile, authorFile []]

/-- Books lead to authors, and to nothing else. -/
theorem concerns_librarySchema {name : String}
    (concerned : librarySchema.Concerns (["book.proto"].filterMap librarySchema.file?) name) :
    name = "shelf.Book" ∨ name = "people.Author" := by
  induction concerned with
  | mentioned listed mentioned =>
    obtain rfl := List.mem_singleton.mp listed
    have only : ∀ ref ∈ bookFile.declaredRefs ++ bookFile.methodRefs,
        ref.fullName = "shelf.Book" := by decide
    exact Or.inl (only _ mentioned)
  | field _ found mentioned ih =>
    rcases ih with rfl | rfl
    · obtain rfl := Option.some.inj found
      obtain rfl := List.mem_singleton.mp mentioned
      exact Or.inr rfl
    · obtain rfl := Option.some.inj found
      cases mentioned

/-- Addresses may have other fields, and the files another order, with or without films. -/
theorem generate_librarySchema :
    (ofFiles [authorFile [{ name := "street", kind := .scalar .string }], bookFile]).generate
        ["book.proto"] {} = librarySchema.generate ["book.proto"] {} ∧
      (ofFiles [filmFile, authorFile [], bookFile]).generate ["book.proto"] {} =
        librarySchema.generate ["book.proto"] {} := by
  constructor
  · refine (generate_eq_of_same_answers _ _ ["book.proto"] {}).1 (by decide) fun name concerned => ?_
    rcases concerns_librarySchema concerned with rfl | rfl <;> exact ⟨rfl, rfl⟩
  · have distinct : (ofFiles [filmFile, authorFile [], bookFile]).Distinct :=
      ⟨by decide, by decide, by decide⟩
    refine (generate_eq_of_same_answers _ _ ["book.proto"] {}).2 [filmFile] (by decide) distinct ?_
    intro file isAdded
    obtain rfl := List.mem_singleton.mp isAdded
    refine ⟨by decide, fun name concerned => ?_⟩
    rcases concerns_librarySchema concerned with rfl | rfl <;> decide

end HttpClientGen.Schema
