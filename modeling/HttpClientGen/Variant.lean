import HttpClientGen.RecordType
import HttpClientGen.Session

/-!
# Shapes of messages

A message is written in its default shape, which has all fields, or in a shape for one direction.
The shape for requests leaves out what only the service sets, the shape for responses what only the
client sets, and both mark the fields that may be absent. Where a field holds a message that needs
two shapes itself, the shape for the same direction is used.
-/

namespace HttpClientGen

inductive Direction
  | request
  | response
  deriving DecidableEq, Repr

/-- The behaviour of the fields that do not travel in a direction. -/
def Direction.excluded : Direction → FieldBehavior
  | request => .outputOnly
  | response => .inputOnly

def Options.suffixOf (options : Options) : Direction → String
  | .request => options.requestSuffix
  | .response => options.responseSuffix

/-- The fields of a message that travel in a direction. -/
def Message.fieldsIn (message : Message) (direction : Direction) : List Field :=
  message.fields.filter (direction.excluded ∉ ·.behaviors)

/-- Whether a field may be absent from the shape for a direction. -/
def Field.mayBeAbsent (field : Field) : Bool :=
  field.oneof.isSome || field.explicitPresence || field.behaviors.contains .optional

def Field.doc (field : Field) : DocComment :=
  .of field.comments field.behaviors

namespace Viewpoint

def defaultRecord (view : Viewpoint) (message : Message) : RecordType where
  doc := .of message.comments []
  name := view.messageName message.fullName
  properties := message.fields.map fun field =>
    ⟨field.doc, field.jsonName, false, view.fieldType field⟩

def variantName (view : Viewpoint) (options : Options) (direction : Direction)
    (fullName : String) : String :=
  withSuffix (view.messageName fullName) (options.suffixOf direction)

/-- The message behind a field, if it is one that needs separate shapes. -/
def variantTarget (view : Viewpoint) (session : Session) (field : Field) :
    Option String × Session :=
  match field.kind.message? with
  | none => (none, session)
  | some fullName =>
    if isWellKnown fullName then (none, session)
    else
      let (separate, session) := session.ask view.schema fullName
      (if separate then some fullName else none, session)

/-- The property for a field in the shape for a direction, and the message whose shape for that
direction it refers to. -/
def variantProperty (view : Viewpoint) (direction : Direction) (session : Session)
    (field : Field) : (Property × Option String) × Session :=
  let (target, session) := view.variantTarget session field
  let type := match target with
    | some fullName =>
      field.cardinality.wrap (.named (view.variantName session.options direction fullName))
    | none => view.fieldType field
  ((⟨field.doc, field.jsonName, field.mayBeAbsent, type⟩, target), session)

/-- The properties for fields in the shape for a direction, and the messages whose shapes for that
direction they refer to. -/
def variantProperties (view : Viewpoint) (direction : Direction) (session : Session) :
    List Field → (List Property × List String) × Session
  | [] => (([], []), session)
  | field :: fields =>
    let ((property, target), session) := view.variantProperty direction session field
    let ((properties, targets), session) := view.variantProperties direction session fields
    ((property :: properties, target.toList ++ targets), session)

/-- The shape of a message for a direction, and the messages whose shapes it refers to. -/
def variantRecord (view : Viewpoint) (direction : Direction) (session : Session)
    (message : Message) : (RecordType × List String) × Session :=
  let ((properties, targets), session) :=
    view.variantProperties direction session (message.fieldsIn direction)
  let name := view.variantName session.options direction message.fullName
  ((⟨.of message.comments [], name, properties⟩, targets), session)

end Viewpoint

end HttpClientGen
