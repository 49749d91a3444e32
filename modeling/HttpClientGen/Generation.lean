import HttpClientGen.PackageFile

/-!
# Generation

A run groups the requested files by package and writes one output file for each package, in
ascending order of the packages. Faults of all packages are collected; if there are any, the run
fails as a whole and gives no output.
-/

namespace HttpClientGen

structure GeneratedFile where
  name : String
  content : String
  deriving DecidableEq, Repr

/-- The declarations for a package, which make up its output file. -/
structure PackageOutput where
  package : String
  file : PackageFile

def PackageOutput.render (output : PackageOutput) : GeneratedFile :=
  ⟨outputPath output.package, Document.render output.file.render⟩

inductive RunError
  | fileNotFound (name : String)
  | faults (errors : List GenerationError)
  deriving DecidableEq, Repr

def RunError.message : RunError → String
  | fileNotFound name =>
    "File `" ++ name ++ "` was requested but is not part of the descriptor set"
  | faults errors =>
    "Encountered " ++ toString errors.length ++ " error(s) during generation:" ++
      String.join (errors.map fun error => "\n  - " ++ error.message)

namespace Schema

/-- The files with the requested names, in the order of the request. -/
def requestedFiles (schema : Schema) : List String → Except RunError (List SchemaFile)
  | [] => .ok []
  | name :: names =>
    match schema.file? name with
    | none => .error (.fileNotFound name)
    | some file => (file :: ·) <$> schema.requestedFiles names

/-- The packages of some files, each once and in ascending order. -/
def packagesOf (files : List SchemaFile) : List String :=
  ascending id (files.map (·.package))

/-- The output of one package. Only the files of that package take part in it. -/
def packageOutput (schema : Schema) (files : List SchemaFile) (session : Session)
    (package : String) : PackageOutput × Session :=
  let (file, session) := (Viewpoint.mk schema package).packageFile session
    (files.filter (·.package = package))
  (⟨package, file⟩, session)

def packageOutputs (schema : Schema) (files : List SchemaFile) (session : Session) :
    List String → List PackageOutput × Session
  | [] => ([], session)
  | package :: packages =>
    let (output, session) := schema.packageOutput files session package
    let (others, session) := schema.packageOutputs files session packages
    (output :: others, session)

/-- The outputs for the requested files, before they are written out. -/
def outputs (schema : Schema) (requested : List String) (options : Options) :
    Except RunError (List PackageOutput) := do
  let files ← schema.requestedFiles requested
  let (outputs, session) := schema.packageOutputs files { options } (packagesOf files)
  if session.errors = [] then return outputs
  else .error (.faults session.errors)

/-- The output files for the requested files. -/
def generate (schema : Schema) (requested : List String) (options : Options) :
    Except RunError (List GeneratedFile) :=
  (·.map PackageOutput.render) <$> schema.outputs requested options

end Schema

end HttpClientGen
