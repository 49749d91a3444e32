import HttpClientGen.Document
import HttpClientGen.Text
import HttpClientGen.TypeExpr

/-!
# Generated types

Messages become record types and enumerations become unions of quoted names. Each has its
documentation in front and a blank line behind.
-/

namespace HttpClientGen

structure Property where
  doc : DocComment
  name : String
  optional : Bool
  type : TypeExpr
  deriving DecidableEq, Repr

def Property.render (property : Property) : Document :=
  property.doc.render 1 ++
    [⟨1, property.name ++ (if property.optional then "?" else "") ++ ": " ++
      property.type.render ++ ";"⟩]

structure RecordType where
  doc : DocComment
  name : String
  properties : List Property
  deriving DecidableEq, Repr

def RecordType.render (type : RecordType) : Document :=
  type.doc.render 0 ++ [⟨0, "export type " ++ type.name ++ " = \x7b"⟩] ++
    type.properties.flatMap Property.render ++ [⟨0, "\x7d;"⟩, Line.blank]

structure UnionMember where
  doc : DocComment
  value : String
  deriving DecidableEq, Repr

/-- A union of quoted names. -/
structure UnionType where
  doc : DocComment
  name : String
  members : List UnionMember
  deriving DecidableEq, Repr

namespace UnionType

def ofEnumeration (name : String) (enumeration : Enumeration) : UnionType where
  doc := .of enumeration.comments []
  name := name
  members := enumeration.values.map fun value => ⟨.of value.comments [], value.name⟩

/-- The members of a union with several members: each on a line of its own, the last one closes. -/
def renderMembers : List UnionMember → Document
  | [] => []
  | [last] => last.doc.render 1 ++ [⟨1, "| " ++ Text.quote last.value ++ ";"⟩]
  | member :: members =>
    member.doc.render 1 ++ [⟨1, "| " ++ Text.quote member.value⟩] ++ renderMembers members

/-- The lines of a union. A union without members is `never`, and a single member has no bar. -/
def render (type : UnionType) : Document :=
  type.doc.render 0 ++ [⟨0, "export type " ++ type.name ++ " ="⟩] ++
    (match type.members with
    | [] => [⟨1, "never;"⟩]
    | [only] => only.doc.render 1 ++ [⟨1, Text.quote only.value ++ ";"⟩]
    | members => renderMembers members) ++
    [Line.blank]

end UnionType

end HttpClientGen
