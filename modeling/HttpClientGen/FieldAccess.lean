import HttpClientGen.Schema
import HttpClientGen.WellKnown

/-!
# Access to request fields

A field path of a template is resolved to the fields along it. `Schema.queryLeaves` goes the other
way: it lists the fields that can be sent in the query of a URL, each with the path that leads to
it.
-/

namespace HttpClientGen

/-- The fields that lead from a message to one of its leaves, outermost first. -/
structure FieldAccess where
  fields : List Field
  deriving DecidableEq, Repr, Inhabited

namespace FieldAccess

/-- The path of schema names. -/
def path (access : FieldAccess) : FieldPath :=
  ⟨access.fields.map (·.name)⟩

def jsonNames (access : FieldAccess) : List String :=
  access.fields.map (·.jsonName)

/-- The chain of JSON names that reads the leaf when everything above it is there. -/
def plainChain (access : FieldAccess) : String :=
  ".".intercalate access.jsonNames

/-- The chain of JSON names that may meet an absent value on its way. -/
def optionalChain (access : FieldAccess) : String :=
  "?.".intercalate access.jsonNames

def isList (access : FieldAccess) : Bool :=
  access.fields.getLast?.any (·.cardinality == .repeated)

end FieldAccess

/-- Why a field path leads nowhere. -/
inductive AccessError
  | emptyPath
  | noField (name message : String)
  | notSingularMessage (name message : String)
  deriving DecidableEq, Repr

def AccessError.reason : AccessError → String
  | emptyPath => "empty field path"
  | noField name message => "no field `" ++ name ++ "` in message `" ++ message ++ "`"
  | notSingularMessage name message =>
    "field `" ++ name ++ "` of `" ++ message ++ "` is not a singular message"

/-- Whether the value of a field is sent as it is: the field is no map, and holds no message or a
well-known one. -/
def Field.isQueryLeaf (field : Field) : Bool :=
  field.cardinality != .map && field.kind.message?.all isWellKnown

namespace Schema

/-- The message behind a field that holds exactly one message. -/
def nested? (schema : Schema) (field : Field) : Option Message :=
  if field.cardinality = .singular then field.kind.message?.bind schema.message? else none

theorem message?_of_nested? {schema : Schema} {field : Field} {inner : Message}
    (found : schema.nested? field = some inner) :
    schema.message? inner.fullName = some inner := by
  unfold nested? at found
  split at found
  · obtain ⟨name, -, resolved⟩ := Option.bind_eq_some_iff.mp found
    rw [fullName_of_message? resolved, resolved]
  · simp at found

/-- The fields along a path of names. Every name but the last has to lead to a single message. -/
def fieldsAlong (schema : Schema) (message : Message) :
    List String → Except AccessError (List Field)
  | [] => .error .emptyPath
  | name :: names =>
    match message.field? name with
    | none => .error (.noField name message.fullName)
    | some field =>
      match names with
      | [] => .ok [field]
      | _ :: _ =>
        match schema.nested? field with
        | none => .error (.notSingularMessage name message.fullName)
        | some inner => (field :: ·) <$> schema.fieldsAlong inner names

def resolve (schema : Schema) (message : Message) (path : FieldPath) :
    Except AccessError FieldAccess :=
  FieldAccess.mk <$> schema.fieldsAlong message path.names

/-- The paths of the fields that can be sent in a query, depth first in the order of declaration.
Single messages are entered unless they are in `onPath`, which holds the message itself and those
around it. -/
def leafPaths (schema : Schema) (onPath : List String) (message : Message) : List (List Field) :=
  message.fields.flatMap fun field =>
    if field.isQueryLeaf then [[field]]
    else
      match _found : schema.nested? field with
      | none => []
      | some inner =>
        if _new : inner.fullName ∈ onPath then []
        else (schema.leafPaths (inner.fullName :: onPath) inner).map (field :: ·)
termination_by (schema.unmet onPath).length
decreasing_by exact unmet_cons_lt (message?_of_nested? _found) _new

/-- The fields of a request that can be sent in the query of a URL. -/
def queryLeaves (schema : Schema) (message : Message) : List FieldAccess :=
  (schema.leafPaths [message.fullName] message).map FieldAccess.mk

end Schema

end HttpClientGen
