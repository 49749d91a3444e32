import HttpClientGen.Plugin
import HttpClientGen.Proofs.Faults
import HttpClientGen.Proofs.Plugin.Request
import HttpClientGen.Proofs.Plugin.Response

/-!
# All or nothing

A run of the plug-in goes through five stages: the request is read, its parameter is read, its
descriptors are loaded, the requested files are looked up, and the packages are written. The first
stage that fails settles the response, which then has an error and no file. Otherwise the response
has no error and all files. Either way a caller reads what the plug-in has written.
-/

namespace HttpClientGen

open Wire

/-- The bytes are a request with a parameter that is accepted and with descriptors that make up a
schema. -/
structure Loads (bytes : Bytes) (invocation : Invocation) (schema : Schema) : Prop where
  read : PluginRequest.decode bytes = some invocation.request
  accepted : Options.parse invocation.request.parameter = .ok invocation.options
  loaded : Descriptor.loadSchema invocation.request.protoFiles = .ok schema

/-- The faults of all packages, each written in a session of its own. -/
def Schema.packageFaults (schema : Schema) (files : List SchemaFile) (options : Options) :
    List GenerationError :=
  (packagesOf files).flatMap fun package => (schema.separateRun files options package).2.errors

/-- The first stage of a run that fails, with its error. All stages before have gone well. -/
inductive FailsFirst (refusals : Refusals) (bytes : Bytes) : PluginError → Prop
  | request (unread : PluginRequest.decode bytes = none) :
      FailsFirst refusals bytes (.decode (refusals.request bytes))
  | options {request : PluginRequest} {cause : OptionError}
      (read : PluginRequest.decode bytes = some request)
      (refused : Options.parse request.parameter = .error cause) :
      FailsFirst refusals bytes (.options cause)
  | descriptors {request : PluginRequest} {options : Options}
      (read : PluginRequest.decode bytes = some request)
      (accepted : Options.parse request.parameter = .ok options)
      (refused : Descriptor.loadSchema request.protoFiles = .error .descriptor) :
      FailsFirst refusals bytes (.descriptors (refusals.descriptors request.protoFiles))
  | httpRule {request : PluginRequest} {options : Options}
      (read : PluginRequest.decode bytes = some request)
      (accepted : Options.parse request.parameter = .ok options)
      (refused : Descriptor.loadSchema request.protoFiles = .error .httpRule) :
      FailsFirst refusals bytes (.decode (refusals.httpRule request.protoFiles))
  | missing {invocation : Invocation} {schema : Schema} {name : String}
      (loads : Loads bytes invocation schema)
      (first : invocation.request.filesToGenerate.find?
        (fun name => (schema.file? name).isNone) = some name) :
      FailsFirst refusals bytes (.run (.fileNotFound name))
  | faults {invocation : Invocation} {schema : Schema}
      (loads : Loads bytes invocation schema)
      (present : ∀ name ∈ invocation.request.filesToGenerate, (schema.file? name).isSome)
      (some : schema.packageFaults
        (invocation.request.filesToGenerate.filterMap schema.file?) invocation.options ≠ []) :
      FailsFirst refusals bytes (.run (.faults (schema.packageFaults
        (invocation.request.filesToGenerate.filterMap schema.file?) invocation.options)))

section Stages

variable {refusals : Refusals} {bytes : Bytes} {invocation : Invocation} {schema : Schema}

theorem Loads.run (loads : Loads bytes invocation schema) :
    Invocation.decode refusals bytes >>= Invocation.generate refusals =
      match schema.generate invocation.request.filesToGenerate invocation.options with
      | .error cause => .error (.run cause)
      | .ok files => .ok files := by
  have decoded : Invocation.decode refusals bytes = .ok invocation := by
    simp only [Invocation.decode, loads.read, loads.accepted]
  rw [decoded]
  cases generated : schema.generate invocation.request.filesToGenerate invocation.options with
  | error cause => simp only [bind, Except.bind, Invocation.generate, loads.loaded, generated]
  | ok files => simp only [bind, Except.bind, Invocation.generate, loads.loaded, generated]

/-- The run ends with the error of the first stage that fails. -/
theorem FailsFirst.run {cause : PluginError} (fails : FailsFirst refusals bytes cause) :
    Invocation.decode refusals bytes >>= Invocation.generate refusals = .error cause := by
  cases fails with
  | request unread =>
    simp only [Invocation.decode, unread]
    rfl
  | options read refused =>
    simp only [Invocation.decode, read, refused]
    rfl
  | descriptors read accepted refused =>
    simp only [Invocation.decode, read, accepted]
    simp only [bind, Except.bind, Invocation.generate, refused]
  | httpRule read accepted refused =>
    simp only [Invocation.decode, read, accepted]
    simp only [bind, Except.bind, Invocation.generate, refused]
  | missing loads first =>
    rw [loads.run, Schema.generate, Schema.outputs, Schema.requestedFiles_of_find? first]
    rfl
  | faults loads present some =>
    rw [loads.run, Schema.generate_of_present _ present]
    dsimp only
    rw [← Schema.packageFaults, if_neg some]

theorem FailsFirst.respond {cause : PluginError} (fails : FailsFirst refusals bytes cause) :
    HttpClientGen.respond refusals bytes = { error := some cause.message, files := [] } := by
  rw [HttpClientGen.respond, fails.run]

theorem Loads.respond (loads : Loads bytes invocation schema) {files : List GeneratedFile}
    (done : schema.generate invocation.request.filesToGenerate invocation.options = .ok files) :
    HttpClientGen.respond refusals bytes = { error := none, files } := by
  rw [HttpClientGen.respond, loads.run, done]

end Stages

end HttpClientGen
