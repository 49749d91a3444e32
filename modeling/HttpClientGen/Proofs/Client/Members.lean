import HttpClientGen.Proofs.Client.Outcome
import Mathlib.Data.List.Forall2

/-!
# The members of interfaces and clients

The interface of a service and the object that its factory returns are written one after the other,
and each asks for the type names itself. Both have one member for each method that the service
serves, in the order of the declaration, and the answer of such a method has the same type in both. The
lines between the braces are those of the members and no others.
-/

namespace HttpClientGen

/-- A method that a service serves: it does not stream, it has a binding of a supported kind that can
be read, its input is a message of the schema, and every field path leads to a field of the input. -/
structure Schema.Serves (schema : Schema) (method : Method) (binding : Binding)
    (template : Template) (body : BodySelector) (input : Message) : Prop where
  unary : method.clientStreaming = false ∧ method.serverStreaming = false
  bound : method.binding = some binding
  supported : ∃ verb, HttpMethod.ofKind? binding.kind = some verb
  path : Template.parse binding.path = .ok template
  selector : BodySelector.parse binding.body = .ok body
  found : schema.message? method.input = some input
  captured : ∀ path ∈ template.capturePaths, ∃ access, schema.resolve input path = .ok access
  field : ∀ path, body = .field path → ∃ access, schema.resolve input path = .ok access

theorem Method.boundBy?_eq_some_iff {method : Method} {binding : Binding} :
    method.boundBy? = some binding ↔
      (method.clientStreaming = false ∧ method.serverStreaming = false) ∧
        method.binding = some binding ∧ ∃ verb, HttpMethod.ofKind? binding.kind = some verb := by
  rw [boundBy?]
  by_cases streams : (method.clientStreaming || method.serverStreaming) = true
  · rw [if_pos streams]
    constructor
    · intro bound
      cases bound
    · rintro ⟨⟨client, server⟩, -⟩
      simp [client, server] at streams
  · rw [if_neg streams, Option.filter_eq_some_iff, Option.isSome_iff_exists]
    constructor
    · intro bound
      exact ⟨by simpa using streams, bound⟩
    · intro unary
      exact unary.2

/-- The client of a service has a function for exactly the methods that it serves. -/
theorem Service.covers_iff {service : Service} {schema : Schema} {method : Method} :
    service.covers schema method = true ↔
      ∃ binding template body input, schema.Serves method binding template body input := by
  rw [covers, Bool.and_eq_true, Option.isSome_iff_exists, List.isEmpty_iff]
  constructor
  · rintro ⟨⟨binding, inForce⟩, faultless⟩
    obtain ⟨unary, bound, supported⟩ := Method.boundBy?_eq_some_iff.mp inForce
    rw [faults, inForce] at faultless
    obtain ⟨template, path, body, selector, input, found, resolves⟩ :=
      Schema.faultsIn_eq_nil_iff.mp faultless
    refine ⟨binding, template, body, input, unary, bound, supported, path, selector, found, ?_, ?_⟩
    · intro path listed
      exact resolves path (List.mem_append_left _ listed)
    · intro path isBody
      exact resolves path (List.mem_append_right _ (BodySelector.mem_path?_iff.mpr isBody))
  · rintro ⟨binding, template, body, input, serves⟩
    constructor
    · exact ⟨binding, Method.boundBy?_eq_some_iff.mpr
        ⟨serves.unary, serves.bound, serves.supported⟩⟩
    · exact faults_eq_nil_iff.mpr (.resolved serves.bound serves.path serves.selector serves.found
        serves.captured serves.field)

/-- A signature and a client function are for the same method: they have its name, and the type in the
promise of the signature is the type to which the function casts what its handler gives back. -/
structure Signature.Matches (signature : Signature) (function : ClientFunction) (output : String) :
    Prop where
  name : function.method = signature.name
  declares : signature.render = signature.doc.render 1 ++
    [⟨1, signature.name ++ "(request: " ++ signature.input ++ "): Promise<" ++ output ++ ">;"⟩]
  opens : [⟨2, signature.name ++
    "(request) \x7b // eslint-disable-line @typescript-eslint/no-unused-vars"⟩] <+: function.render
  closes : [⟨3, "\x7d) as Promise<" ++ output ++ ">;"⟩, ⟨2, "\x7d,"⟩] <:+ function.render

theorem Signature.matches_of_eq {signature : Signature} {function : ClientFunction}
    (name : function.method = signature.name) (output : function.output = signature.output) :
    signature.Matches function signature.output where
  name := name
  declares := rfl
  opens := by
    rw [← name]
    exact ⟨_, rfl⟩
  closes := by
    rw [← output, ClientFunction.render]
    apply List.IsSuffix.trans _ (List.suffix_append _ _)
    exact List.suffix_iff_eq_drop.mpr rfl

/-- The lines of a service's code are an interface and a factory of the given name, the first with
certain signatures between its braces, the second with certain functions in the object it returns. -/
def ServiceCode.ConsistsOf (code : ServiceCode) (name : String)
    (signatures functions : List Document) : Prop :=
  code.render = code.interface.doc.render 0 ++
    [⟨0, "export interface " ++ name ++ " \x7b"⟩] ++ signatures.flatten ++
    [⟨0, "\x7d"⟩, Line.blank,
     ⟨0, "export function create" ++ name ++ "Client("⟩,
     ⟨1, "handler: RequestHandler"⟩,
     ⟨0, "): " ++ name ++ " \x7b"⟩,
     ⟨1, "return \x7b"⟩] ++ functions.flatten ++
    [⟨1, "\x7d;"⟩, ⟨0, "\x7d"⟩, Line.blank]

theorem ServiceCode.consistsOf {code : ServiceCode} {name : String}
    (interface : code.interface.name = name) (factory : code.factory.service = name) :
    code.ConsistsOf name (code.interface.signatures.map Signature.render)
      (code.factory.functions.map ClientFunction.render) := by
  subst name
  rw [ConsistsOf, render, ServiceInterface.render, ClientFactory.render, factory,
    List.flatMap_def, List.flatMap_def]
  simp only [List.append_assoc, List.cons_append, List.nil_append]

namespace Viewpoint

/-- Whatever has been asked and claimed before, the interface and the client of a service have one
member for each method that the service serves, in the order of the declaration, and the answers of
these methods have the same types in both. The lines of the code are those of the members, between the
braces of the interface and of the factory. The names that are claimed stay as they are, and the faults
of the service come behind those found before. -/
theorem interface_and_client_agree (view : Viewpoint) (session : Session) (service : Service) :
    let code := (view.serviceCode session service).1
    let after := (view.serviceCode session service).2
    let served := service.methods.filter (service.covers view.schema)
    (∀ method, service.covers view.schema method = true ↔
      ∃ binding template body input,
        view.schema.Serves method binding template body input) ∧
    code.interface.signatures.map (·.name) = served.map (·.name) ∧
    code.factory.functions.map (·.method) = served.map (·.name) ∧
    code.plans.map (·.method) = served ∧
    code.ConsistsOf service.name (code.interface.signatures.map Signature.render)
      (code.factory.functions.map ClientFunction.render) ∧
    List.Forall₂ (fun signature function => ∃ output, signature.Matches function output)
      code.interface.signatures code.factory.functions ∧
    after.registry = session.registry ∧ after.options = session.options ∧
    after.errors = session.errors ++ service.errors view.schema := by
  intro code after served
  obtain ⟨same, consults⟩ := view.serviceCode_eq session service
  have planned : (service.plans view.schema).map (·.method) = served :=
    service.map_method_plans view.schema
  have names : (service.plans view.schema).map (·.method.name) = served.map (·.name) := by
    rw [← planned, List.map_map]
    rfl
  have isCode : code = _ := same
  refine ⟨fun _ => Service.covers_iff, ?_, ?_, ?_, ?_, ?_, consults.registry, consults.options,
    consults.errors⟩
  · rw [isCode, ← names]
    exact List.map_map
  · rw [isCode, ← names]
    exact List.map_map
  · rw [isCode]
    exact planned
  · rw [isCode]
    exact ServiceCode.consistsOf rfl rfl
  · rw [isCode]
    apply List.forall₂_map_left_iff.mpr
    apply List.forall₂_map_right_iff.mpr
    apply List.forall₂_same.mpr
    intro plan _
    exact ⟨_, Signature.matches_of_eq rfl rfl⟩

/-- A folder can be read. To watch it takes a stream, and the template for listing folders does not
start with a slash. -/
def folderService : Service where
  declared := ⟨"disk", "Folders"⟩
  methods := [
    { name := "WatchFolder", input := "disk.Folder", output := "disk.Folder",
      serverStreaming := true, binding := some ⟨"get", "/v1/folder", ""⟩ },
    { name := "GetFolder", input := "disk.Folder", output := "disk.Folder",
      binding := some ⟨"get", "/v1/folder", ""⟩ },
    { name := "ListFolders", input := "disk.Folder", output := "disk.Folder",
      binding := some ⟨"get", "v1/folders", ""⟩ }]

def folderView : Viewpoint where
  schema := .ofFiles [{
    name := "disk.proto", package := "disk", messages := [{ declared := ⟨"disk", "Folder"⟩ }] }]
  package := "disk"

theorem interface_and_client_folderService :
    let code := (folderView.serviceCode {} folderService).1
    code.interface.signatures.map (·.name) = ["GetFolder"] ∧
      code.factory.functions.map (·.method) = ["GetFolder"] := by
  intro code
  obtain ⟨-, signatures, functions, -⟩ := interface_and_client_agree folderView {} folderService
  have served : (folderService.methods.filter (folderService.covers folderView.schema)).map
      (·.name) = ["GetFolder"] := by decide
  exact ⟨signatures.trans served, functions.trans served⟩

end Viewpoint

end HttpClientGen
