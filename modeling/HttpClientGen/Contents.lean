import HttpClientGen.Schema
import HttpClientGen.WellKnown

/-!
# Contents of an output file

The output for some files declares their messages and enumerations, the inputs and outputs of their
methods, and whatever the fields of those messages lead to. Declarations are met in a breadth-first
walk, each full name once. Well-known types are set aside: they are declared by their aliases.
-/

namespace HttpClientGen

/-!
## Lists in ascending order of a key

A list that is kept in strictly ascending order of a text that each element has. An element whose
key is in the list already is not added, so the first element with a key stays.
-/

section Ascending

variable {α : Type}

/-- Adds an element at its place, unless its key is there already. -/
def insertAscending (key : α → String) (new : α) : List α → List α
  | [] => [new]
  | x :: xs =>
    if key new < key x then new :: x :: xs
    else if key new = key x then x :: xs
    else x :: insertAscending key new xs

/-- The elements of a list in ascending order of their keys, the first one for each key. -/
def ascending (key : α → String) (xs : List α) : List α :=
  xs.foldl (fun sorted x => insertAscending key x sorted) []

end Ascending

/-! ## What a file mentions -/

/-- A mention of a type. -/
inductive TypeRef
  | message (fullName : String)
  | enumeration (fullName : String)
  deriving DecidableEq, Repr

def TypeRef.fullName : TypeRef → String
  | message fullName => fullName
  | enumeration fullName => fullName

def FieldKind.ref? : FieldKind → Option TypeRef
  | scalar _ => none
  | enumeration fullName => some (.enumeration fullName)
  | message fullName => some (.message fullName)

def Message.refs (message : Message) : List TypeRef :=
  message.fields.filterMap (·.kind.ref?)

/-- The types that a file declares, enumerations first. -/
def SchemaFile.declaredRefs (file : SchemaFile) : List TypeRef :=
  file.enums.map (.enumeration ·.fullName) ++ file.messages.map (.message ·.fullName)

def SchemaFile.methodRefs (file : SchemaFile) : List TypeRef :=
  file.services.flatMap fun service =>
    service.methods.flatMap fun method => [.message method.input, .message method.output]

/-- What an output file has to declare. -/
structure Contents where
  messages : List Message := []
  enums : List Enumeration := []
  wellKnown : List WellKnown := []
  deriving DecidableEq, Repr

namespace Contents

def consMessage (message : Message) (contents : Contents) : Contents :=
  { contents with messages := message :: contents.messages }

def consEnum (enumeration : Enumeration) (contents : Contents) : Contents :=
  { contents with enums := enumeration :: contents.enums }

def consWellKnown (type : WellKnown) (contents : Contents) : Contents :=
  { contents with wellKnown := type :: contents.wellKnown }

end Contents

/-- What a queue of mentions leads to, in the order in which it is met. Names in `met` have been
dealt with. -/
def Schema.contentsOf (schema : Schema) (met : List String) (queue : List TypeRef) : Contents :=
  match queue with
  | [] => {}
  | ref :: rest =>
    match WellKnown.ofFullName? ref.fullName with
    | some type => (schema.contentsOf met rest).consWellKnown type
    | none =>
      if _new : ref.fullName ∈ met then schema.contentsOf met rest
      else
        match ref with
        | .enumeration fullName =>
          let others := schema.contentsOf (fullName :: met) rest
          match schema.enum? fullName with
          | none => others
          | some enumeration => others.consEnum enumeration
        | .message fullName =>
          match _found : schema.message? fullName with
          | none => schema.contentsOf (fullName :: met) rest
          | some message =>
            (schema.contentsOf (fullName :: met) (rest ++ message.refs)).consMessage message
termination_by ((schema.unmet met).length, queue.length)
decreasing_by
  · exact Prod.Lex.right _ (by simp)
  · exact Prod.Lex.right _ (by simp)
  · exact schema.unmet_cons_lex _ (by simp)
  · exact schema.unmet_cons_lex _ (by simp)
  · exact Prod.Lex.left _ _ (Schema.unmet_cons_lt _found _new)

/-- What the output for some files has to declare. Well-known types come in the order of their
aliases, together with those that their declarations refer to. -/
def Schema.contents (schema : Schema) (files : List SchemaFile) : Contents :=
  let met := schema.contentsOf []
    (files.flatMap SchemaFile.declaredRefs ++ files.flatMap SchemaFile.methodRefs)
  { met with
    wellKnown := ascending WellKnown.aliasName
      (met.wellKnown.flatMap fun type => type.dependencies ++ [type]) }

end HttpClientGen
