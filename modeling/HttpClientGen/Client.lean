import HttpClientGen.Client.Function
import HttpClientGen.Variant

/-!
# Service clients

A service becomes an interface with a signature for each planned method, and a factory whose result
has a function for each of them. Both are written from the same plans, but each asks for the type
names itself.
-/

namespace HttpClientGen

structure Signature where
  doc : DocComment
  name : String
  input : String
  output : String
  deriving DecidableEq, Repr

def Signature.render (signature : Signature) : Document :=
  signature.doc.render 1 ++
    [⟨1, signature.name ++ "(request: " ++ signature.input ++ "): Promise<" ++
      signature.output ++ ">;"⟩]

structure ServiceInterface where
  doc : DocComment
  name : String
  signatures : List Signature
  deriving DecidableEq, Repr

def ServiceInterface.render (interface : ServiceInterface) : Document :=
  interface.doc.render 0 ++ [⟨0, "export interface " ++ interface.name ++ " \x7b"⟩] ++
    interface.signatures.flatMap Signature.render ++ [⟨0, "\x7d"⟩, Line.blank]

structure ClientFactory where
  service : String
  functions : List ClientFunction
  deriving DecidableEq, Repr

def ClientFactory.render (factory : ClientFactory) : Document :=
  [⟨0, "export function create" ++ factory.service ++ "Client("⟩,
   ⟨1, "handler: RequestHandler"⟩,
   ⟨0, "): " ++ factory.service ++ " \x7b"⟩,
   ⟨1, "return \x7b"⟩] ++
  factory.functions.flatMap ClientFunction.render ++
  [⟨1, "\x7d;"⟩, ⟨0, "\x7d"⟩, Line.blank]

def transportTypes : Document :=
  [⟨0, "type RequestType = \x7b"⟩,
   ⟨1, "path: string;"⟩,
   ⟨1, "method: string;"⟩,
   ⟨1, "body: string | null;"⟩,
   ⟨0, "\x7d;"⟩,
   Line.blank,
   ⟨0, "type RequestHandler = (request: RequestType, meta: " ++
     "\x7b service: string, method: string \x7d) => Promise<unknown>;"⟩,
   Line.blank]

namespace Viewpoint

def signatureType (view : Viewpoint) (session : Session) (direction : Direction)
    (fullName : String) : String × Session :=
  if isWellKnown fullName then (view.messageName fullName, session)
  else
    let (separate, session) := session.ask view.schema fullName
    (if separate then view.variantName session.options direction fullName
      else view.messageName fullName, session)

def signatures (view : Viewpoint) (session : Session) :
    List MethodPlan → List Signature × Session
  | [] => ([], session)
  | plan :: plans =>
    let (input, session) := view.signatureType session .request plan.method.input
    let (output, session) := view.signatureType session .response plan.method.output
    let (others, session) := view.signatures session plans
    (⟨.of plan.method.comments [], plan.method.name, input, output⟩ :: others, session)

def functions (view : Viewpoint) (service : Service) (session : Session) :
    List MethodPlan → List ClientFunction × Session
  | [] => ([], session)
  | plan :: plans =>
    let (output, session) := view.signatureType session .response plan.method.output
    let (others, session) := view.functions service session plans
    ({ service := service.name, method := plan.method.name, verb := plan.verb, path := plan.path,
       payload := plan.payload, query := plan.query view.schema, output } :: others, session)

end Viewpoint

/-- The generated code of a service, and the methods that it covers. -/
structure ServiceCode where
  interface : ServiceInterface
  factory : ClientFactory
  plans : List MethodPlan

def ServiceCode.render (code : ServiceCode) : Document :=
  code.interface.render ++ code.factory.render

/-- The code of a service. The faults in its bindings are reported. -/
def Viewpoint.serviceCode (view : Viewpoint) (session : Session) (service : Service) :
    ServiceCode × Session :=
  let plans := service.plans view.schema
  let session := session.report (service.errors view.schema)
  let (signatures, session) := view.signatures session plans
  let (functions, session) := view.functions service session plans
  (⟨⟨.of service.comments [], service.name, signatures⟩, ⟨service.name, functions⟩, plans⟩, session)

end HttpClientGen
