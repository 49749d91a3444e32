import HttpClientGen.Client.Plan
import HttpClientGen.Document
import HttpClientGen.Text

/-!
# Client functions

The function that a client has for a method. It refuses a request that lacks a field of the path,
builds the path, the body and the query from the request, and hands them to the caller's handler.
The query carries every field that can be sent there and is not sent in the path or in the body.
-/

namespace HttpClientGen

structure ClientFunction where
  service : String
  method : String
  verb : HttpMethod
  path : List PathPart
  payload : Payload
  /-- The fields that are sent in the query. -/
  query : List FieldAccess
  /-- The type of the answer. -/
  output : String
  deriving DecidableEq, Repr

/-- Whether a field, or something around it, is sent in the path or in the body of a planned
method. -/
def MethodPlan.sends (plan : MethodPlan) (leaf : FieldAccess) : Bool :=
  plan.captures.any (fun access => leaf.path.startsWith access.path) ||
    match plan.payload with
    | .nothing => false
    | .request => true
    | .field access => leaf.path.startsWith access.path

def MethodPlan.query (plan : MethodPlan) (schema : Schema) : List FieldAccess :=
  if plan.payload = .request then []
  else (schema.queryLeaves plan.input).filter (!plan.sends ·)

namespace PathPart

def render : PathPart → String
  | text fixed => fixed
  | value access => "$\x7brequest." ++ access.plainChain ++ "\x7d"

end PathPart

namespace Payload

def render : Payload → String
  | nothing => "null"
  | request => "JSON.stringify(request)"
  | field access => "JSON.stringify(request?." ++ access.optionalChain ++ " ?? \x7b\x7d)"

end Payload

namespace ClientFunction

def captures (function : ClientFunction) : List FieldAccess :=
  function.path.filterMap PathPart.access?

def renderGuard (access : FieldAccess) : Document :=
  [⟨3, "if (!request." ++ access.optionalChain ++ ") \x7b"⟩,
   ⟨4, "throw new Error(" ++
      Text.quote ("missing required field request." ++ access.path.toString) ++ ");"⟩,
   ⟨3, "\x7d"⟩]

/-- The statement that adds a field to the query if it is there. The elements of a list are added
one by one. -/
def renderQuery (access : FieldAccess) : Document :=
  let chain := access.plainChain
  [⟨3, "if (request." ++ access.optionalChain ++ ") \x7b"⟩] ++
    (if access.isList then
      [⟨4, "request." ++ chain ++ ".forEach((x) => \x7b"⟩,
       ⟨5, "queryParams.push(`" ++ chain ++ "=$\x7bencodeURIComponent(x.toString())\x7d`)"⟩,
       ⟨4, "\x7d)"⟩]
    else
      [⟨4, "queryParams.push(`" ++ chain ++ "=$\x7bencodeURIComponent(request." ++ chain ++
        ".toString())\x7d`)"⟩]) ++
    [⟨3, "\x7d"⟩]

def pathText (function : ClientFunction) : String :=
  String.join (function.path.map PathPart.render)

def render (function : ClientFunction) : Document :=
  [⟨2, function.method ++
    "(request) \x7b // eslint-disable-line @typescript-eslint/no-unused-vars"⟩] ++
  function.captures.flatMap renderGuard ++
  [⟨3, "const path = `" ++ function.pathText ++ "`; // eslint-disable-line quotes"⟩,
   ⟨3, "const body = " ++ function.payload.render ++ ";"⟩,
   ⟨3, "const queryParams: string[] = [];"⟩] ++
  function.query.flatMap renderQuery ++
  [⟨3, "let uri = path;"⟩,
   ⟨3, "if (queryParams.length > 0) \x7b"⟩,
   ⟨4, "uri += `?$\x7bqueryParams.join(\"&\")\x7d`"⟩,
   ⟨3, "\x7d"⟩,
   ⟨3, "return handler(\x7b"⟩,
   ⟨4, "path: uri,"⟩,
   ⟨4, "method: " ++ Text.quote function.verb.name ++ ","⟩,
   ⟨4, "body,"⟩,
   ⟨3, "\x7d, \x7b"⟩,
   ⟨4, "service: " ++ Text.quote function.service ++ ","⟩,
   ⟨4, "method: " ++ Text.quote function.method ++ ","⟩,
   ⟨3, "\x7d) as Promise<" ++ function.output ++ ">;"⟩,
   ⟨2, "\x7d,"⟩]

end ClientFunction

end HttpClientGen
