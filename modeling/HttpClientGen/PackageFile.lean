import HttpClientGen.Client
import HttpClientGen.Contents
import HttpClientGen.Synthesis

/-!
# Output files

A package has one output file. It declares the aliases of well-known types, the enumerations, the
messages in their default shapes, the services, and at last the shapes for one direction that the
methods of the services need.
-/

namespace HttpClientGen

def outputPath (package : String) : String :=
  if package = "" then "index.ts" else replaceChar package '.' "/" ++ "/index.ts"

structure PackageFile where
  wellKnown : List WellKnown
  enums : List UnionType
  /-- The default shapes of the messages. -/
  messages : List RecordType
  services : List ServiceCode
  /-- The shapes that the methods of the services need. -/
  variants : List RecordType

namespace PackageFile

def header : Document :=
  [⟨0, "// Code generated by protoc-gen-typescript-http. DO NOT EDIT."⟩,
   ⟨0, "/* eslint-disable camelcase */"⟩,
   ⟨0, "// @ts-nocheck"⟩,
   Line.blank]

def trailer : Document :=
  [Line.blank, ⟨0, "// @@protoc_insertion_point(typescript-http-eof)"⟩]

/-- The lines of an output file. The types for transport are there only if there is a service. -/
def render (file : PackageFile) : Document :=
  header ++ file.wellKnown.flatMap WellKnown.declaration ++
    file.enums.flatMap UnionType.render ++
    file.messages.flatMap RecordType.render ++
    (if file.services.isEmpty then [] else transportTypes) ++
    file.services.flatMap ServiceCode.render ++
    file.variants.flatMap RecordType.render ++
    trailer

end PackageFile

def plansOf (services : List ServiceCode) : List MethodPlan :=
  services.flatMap (·.plans)

namespace Viewpoint

def synthesizeAll (view : Viewpoint) (session : Session) :
    List Usage → List RecordType × Session
  | [] => ([], session)
  | usage :: usages =>
    let (records, session) := view.synthesize session usage
    let (others, session) := view.synthesizeAll session usages
    (records ++ others, session)

def serviceCodes (view : Viewpoint) (session : Session) :
    List Service → List ServiceCode × Session
  | [] => ([], session)
  | service :: services =>
    let (code, session) := view.serviceCode session service
    let (others, session) := view.serviceCodes session services
    (code :: others, session)

/-- The messages that a planned method uses: its input in requests, its output in responses. -/
def planUsages (plan : MethodPlan) : List Usage :=
  [⟨plan.method.input, true, false⟩, ⟨plan.method.output, false, true⟩]

/-- The output file of a package for some of its files. -/
def packageFile (view : Viewpoint) (session : Session) (files : List SchemaFile) :
    PackageFile × Session :=
  let contents := view.schema.contents files
  let (messages, session) :=
    view.synthesizeAll session
      (contents.messages.map fun message => ⟨message.fullName, false, false⟩)
  let (services, session) := view.serviceCodes session (files.flatMap (·.services))
  let (variants, session) :=
    view.synthesizeAll session ((plansOf services).flatMap planUsages)
  ({ wellKnown := contents.wellKnown, services, messages, variants
     enums := contents.enums.map fun enumeration =>
       .ofEnumeration (view.enumName enumeration.fullName) enumeration }, session)

end Viewpoint

end HttpClientGen
