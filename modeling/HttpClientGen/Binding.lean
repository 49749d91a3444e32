import HttpClientGen.Template.Parser

/-!
# HTTP bindings

A method of a service may be bound to an HTTP method, a URL template and a selector that says which
part of the request travels in the body. `Binding` is what a schema writes; `Rule` is what it means.
-/

namespace HttpClientGen

/-- The HTTP methods that a binding may use. -/
inductive HttpMethod
  | get
  | post
  | put
  | patch
  | delete
  deriving DecidableEq, Repr

namespace HttpMethod

/-- The name of the method on the wire. -/
def name : HttpMethod → String
  | get => "GET"
  | post => "POST"
  | put => "PUT"
  | patch => "PATCH"
  | delete => "DELETE"

/-- The method of a binding kind, in any mixture of cases. Other kinds have no method. -/
def ofKind? (kind : String) : Option HttpMethod :=
  [get, post, put, patch, delete].find? fun method =>
    kind.toList.map Char.toUpper == method.name.toList

end HttpMethod

/-- The part of a request that is sent as the body. -/
inductive BodySelector
  | none
  | whole
  | field (path : FieldPath)
  deriving DecidableEq, Repr

/-- Reads a body selector: nothing, `*`, or a field path. -/
def BodySelector.parse (body : String) : Except SyntaxError BodySelector :=
  if body = "" then .ok .none
  else if body = "*" then .ok .whole
  else ((FieldPath.read 0 body.toList).map BodySelector.field).mapError (·.inText body)

/-- The binding of a method as a schema writes it. -/
structure Binding where
  /-- `get`, `post`, … or the kind of a custom pattern. -/
  kind : String
  path : String
  body : String
  deriving DecidableEq, Repr, Inhabited

/-- A binding that has been read. -/
structure Rule where
  method : HttpMethod
  template : Template
  body : BodySelector
  deriving DecidableEq, Repr

/-- Reads a binding. A kind that is no supported HTTP method gives no rule, whatever the rest of
the binding looks like; a fault in the template is reported before one in the body. -/
def Binding.rule? (binding : Binding) : Except SyntaxError (Option Rule) :=
  match HttpMethod.ofKind? binding.kind with
  | none => .ok none
  | some method => do
    let template ← Template.parse binding.path
    let body ← BodySelector.parse binding.body
    return some ⟨method, template, body⟩

end HttpClientGen
