import HttpClientGen.Binding
import HttpClientGen.Wire.Value

/-!
# The HTTP annotation

The message with which a schema annotates a method. Its alternatives for the HTTP method form one
group: the last one that is written counts, but a custom pattern that follows a custom pattern is
merged into it. Additional bindings and all other fields are skipped.
-/

namespace HttpClientGen

open Wire

/-- A pattern for a method that the annotation has no name for. -/
structure CustomPattern where
  kind : String := ""
  path : String := ""
  deriving DecidableEq, Repr

namespace CustomPattern

def mergeRecord (depth : Nat) (pattern : CustomPattern) (record : Record) :
    Option CustomPattern :=
  match record.field with
  | 1 => record.value.text?.map fun kind => { pattern with kind }
  | 2 => record.value.text?.map fun path => { pattern with path }
  | _ => skip depth record.value pattern

/-- The pattern after the records of one more message, in which messages may nest `depth` deep. -/
def merge (pattern : CustomPattern) (depth : Nat) (bytes : Bytes) : Option CustomPattern := do
  (← records? bytes).foldlM (mergeRecord depth) pattern

/-- The bytes of a pattern. Empty texts are not written. -/
def encode (pattern : CustomPattern) : Bytes :=
  (if pattern.kind = "" then [] else putText 1 pattern.kind) ++
    if pattern.path = "" then [] else putText 2 pattern.path

end CustomPattern

/-- The HTTP method and the path of an annotation. -/
inductive HttpPattern
  | standard (method : HttpMethod) (path : String)
  | custom (pattern : CustomPattern)
  deriving DecidableEq, Repr

structure HttpRule where
  selector : String := ""
  body : String := ""
  pattern : Option HttpPattern := none
  deriving DecidableEq, Repr

namespace HttpRule

def fieldOf : HttpMethod → Nat
  | .get => 2
  | .put => 3
  | .post => 4
  | .delete => 5
  | .patch => 6

def methodOf? (field : Nat) : Option HttpMethod :=
  [HttpMethod.get, .put, .post, .delete, .patch].find? (fieldOf · = field)

/-- The custom pattern that a further one is merged into. -/
def customSoFar (rule : HttpRule) : CustomPattern :=
  match rule.pattern with
  | some (.custom pattern) => pattern
  | _ => {}

def mergeRecord (rule : HttpRule) (record : Record) : Option HttpRule :=
  match record.field with
  | 1 => record.value.text?.map fun selector => { rule with selector }
  | 7 => record.value.text?.map fun body => { rule with body }
  | 8 => do
    let pattern ← rule.customSoFar.merge (nestingLimit - 1) (← record.value.bytes?)
    return { rule with pattern := some (.custom pattern) }
  | field =>
    match methodOf? field with
    | some method =>
      record.value.text?.map fun path => { rule with pattern := some (.standard method path) }
    | none => skip nestingLimit record.value rule

/-- The annotation that some records stand for. -/
def ofRecords? (records : List Record) : Option HttpRule :=
  records.foldlM mergeRecord {}

def decode (bytes : Bytes) : Option HttpRule :=
  records? bytes >>= ofRecords?

def encodePattern : HttpPattern → Bytes
  | .standard method path => putText (fieldOf method) path
  | .custom pattern => putBytes 8 pattern.encode

/-- The bytes of an annotation. Empty texts are not written, except in a pattern. -/
def encode (rule : HttpRule) : Bytes :=
  (if rule.selector = "" then [] else putText 1 rule.selector) ++
    (rule.pattern.map encodePattern).getD [] ++
    if rule.body = "" then [] else putText 7 rule.body

/-- The binding that an annotation stands for. Without a pattern there is none. -/
def binding? (rule : HttpRule) : Option Binding :=
  rule.pattern.map fun
    | .standard method path => ⟨method.name, path, rule.body⟩
    | .custom pattern => ⟨pattern.kind, pattern.path, rule.body⟩

end HttpRule

end HttpClientGen
