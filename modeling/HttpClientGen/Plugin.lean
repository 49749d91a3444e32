import HttpClientGen.Descriptor.Load
import HttpClientGen.Generation

/-!
# The plug-in

A request names the files to generate, carries the parameter, and holds the descriptors of all
files. The descriptors are kept as bytes, so that annotations in them are not lost. Everything else
in a request is skipped. A response holds either an error or the generated files, and always tells the
caller that fields with explicit presence are understood.

A run of the plug-in takes the bytes of a request and always gives a response. What goes wrong on
the way ends up in the response's error, the first fault winning: the request is read first, then
its parameter, then the descriptors, and only then are the files looked up and generated.
-/

namespace HttpClientGen

open Wire

structure PluginRequest where
  filesToGenerate : List String := []
  parameter : Option String := none
  /-- The descriptors of the files, not read yet. -/
  protoFiles : List Bytes := []
  deriving DecidableEq, Repr

namespace PluginRequest

def mergeRecord (request : PluginRequest) (record : Record) : Option PluginRequest :=
  match record.field with
  | 1 => record.value.text?.map fun name =>
      { request with filesToGenerate := request.filesToGenerate ++ [name] }
  | 2 => record.value.text?.map fun parameter => { request with parameter := some parameter }
  | 15 => record.value.bytes?.map fun file =>
      { request with protoFiles := request.protoFiles ++ [file] }
  | _ => skip nestingLimit record.value request

def decode (bytes : Bytes) : Option PluginRequest := do
  (← records? bytes).foldlM mergeRecord {}

def encode (request : PluginRequest) : Bytes :=
  request.filesToGenerate.flatMap (putText 1) ++
    (request.parameter.map (putText 2)).getD [] ++
    request.protoFiles.flatMap (putBytes 15)

end PluginRequest

structure PluginResponse where
  error : Option String := none
  files : List GeneratedFile := []
  deriving DecidableEq, Repr

namespace PluginResponse

/-- The features that the plug-in supports, as a set of bits: fields with explicit presence. -/
def supportedFeatures : Nat := 1

def encodeFile (file : GeneratedFile) : Bytes :=
  putText 1 file.name ++ putText 15 file.content

def encode (response : PluginResponse) : Bytes :=
  (response.error.map (putText 1)).getD [] ++
    putNumber 2 supportedFeatures ++
    response.files.flatMap fun file => putBytes 15 (encodeFile file)

end PluginResponse

/-- Why the plug-in responds with an error. What cannot be read comes with the reason of its reader. -/
inductive PluginError
  | decode (reason : String)
  | descriptors (reason : String)
  | options (cause : OptionError)
  | run (cause : RunError)
  deriving DecidableEq, Repr

def PluginError.message : PluginError → String
  | decode reason => "Failed to decode plugin request: " ++ reason
  | descriptors reason => "Failed to build descriptor pool: " ++ reason
  | options cause => cause.message
  | run cause => cause.message

/-- The reasons that the readers of requests, of descriptors and of the HTTP annotations in descriptors
give for refusing some bytes. They end up in messages and decide nothing. -/
structure Refusals where
  request : Bytes → String
  descriptors : List Bytes → String
  httpRule : List Bytes → String

/-- An accepted request and its options. -/
structure Invocation where
  request : PluginRequest
  options : Options
  deriving DecidableEq, Repr

namespace Invocation

def decode (refusals : Refusals) (bytes : Bytes) : Except PluginError Invocation :=
  match PluginRequest.decode bytes with
  | none => .error (.decode (refusals.request bytes))
  | some request =>
    match Options.parse request.parameter with
    | .error cause => .error (.options cause)
    | .ok options => .ok ⟨request, options⟩

/-- Whether the bytes are an accepted request that asks for a verbose run. -/
def asksForVerbose (bytes : Bytes) : Bool :=
  match PluginRequest.decode bytes with
  | none => false
  | some request =>
    match Options.parse request.parameter with
    | .error _ => false
    | .ok options => options.verbose

/-- The files that an accepted request asks for. An annotation that cannot be read counts as a fault of
the request. -/
def generate (refusals : Refusals) (invocation : Invocation) :
    Except PluginError (List GeneratedFile) :=
  let files := invocation.request.protoFiles
  match Descriptor.loadSchema files with
  | .error .descriptor => .error (.descriptors (refusals.descriptors files))
  | .error .httpRule => .error (.decode (refusals.httpRule files))
  | .ok schema =>
    match schema.generate invocation.request.filesToGenerate invocation.options with
    | .error cause => .error (.run cause)
    | .ok files => .ok files

end Invocation

/-- The response to the bytes of a request. -/
def respond (refusals : Refusals) (bytes : Bytes) : PluginResponse :=
  match Invocation.decode refusals bytes >>= Invocation.generate refusals with
  | .ok files => { files }
  | .error cause => { error := some cause.message }

end HttpClientGen
