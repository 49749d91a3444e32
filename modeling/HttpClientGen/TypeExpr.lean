import HttpClientGen.Schema
import HttpClientGen.WellKnown

/-!
# Types of generated code

How the types of a schema are written in the output of one package. Declarations of another package
carry that package in front of their name, so they cannot be mistaken for the package's own.
-/

namespace HttpClientGen

/-- A type expression. The keys of a map are always strings, as in JSON. -/
inductive TypeExpr
  | named (name : String)
  | list (element : TypeExpr)
  | map (value : TypeExpr)
  deriving DecidableEq, Repr

namespace TypeExpr

def render : TypeExpr → String
  | named name => name
  | list element => element.render ++ "[]"
  | map value => "\x7b [key: string]: " ++ value.render ++ " \x7d"

/-- The name inside of lists and maps. -/
def leaf : TypeExpr → String
  | named name => name
  | list element => element.leaf
  | map value => value.leaf

end TypeExpr

def Cardinality.wrap : Cardinality → TypeExpr → TypeExpr
  | singular, element => element
  | repeated, element => .list element
  | map, element => .map element

/-- The type of a built-in kind. Numbers of 64 bits are numbers like all others. -/
def ScalarKind.typeName : ScalarKind → String
  | string | bytes => "string"
  | bool => "boolean"
  | _ => "number"

/-- The name of a declaration as seen from `package`. -/
def scopedTypeName (package declaredIn typeName : String) : String :=
  if declaredIn = package then typeName
  else replaceChar declaredIn '.' "" ++ "_" ++ typeName

/-- A name that ends with `suffix`, which is added only if it is not there yet. -/
def withSuffix (name suffix : String) : String :=
  if suffix.toList.isSuffixOf name.toList then name else name ++ suffix

/-- A package and the schema in which it looks names up. -/
structure Viewpoint where
  schema : Schema
  package : String

namespace Viewpoint

def localName (view : Viewpoint) (declared : QualifiedName) : String :=
  scopedTypeName view.package declared.package declared.typeName

/-- The type name of a message, without the suffix of a request or response. -/
def messageName (view : Viewpoint) (fullName : String) : String :=
  match WellKnown.ofFullName? fullName with
  | some type => type.aliasName
  | none => ((view.schema.message? fullName).map (view.localName ·.declared)).getD "unknown"

def enumName (view : Viewpoint) (fullName : String) : String :=
  match WellKnown.ofFullName? fullName with
  | some type => type.aliasName
  | none => ((view.schema.enum? fullName).map (view.localName ·.declared)).getD "unknown"

def elementType (view : Viewpoint) (field : Field) : TypeExpr :=
  if field.stringEncoded then .named "string"
  else match field.kind with
    | .scalar kind => .named kind.typeName
    | .enumeration fullName => .named (view.enumName fullName)
    | .message fullName => .named (view.messageName fullName)

def fieldType (view : Viewpoint) (field : Field) : TypeExpr :=
  field.cardinality.wrap (view.elementType field)

end Viewpoint

end HttpClientGen
