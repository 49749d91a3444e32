/-!
# URL templates

The path of an HTTP binding is a template such as `/v1/{name=shelves/*}/books/**:archive`: segments
between slashes, some of which stand for fields of the request, and an optional verb at the end.
A variable holds a dotted path of field names, which starts at the request message.
`Template.render` writes a template down, and `Template.WellFormed` says which templates have a
written form that can be read back.
-/

namespace HttpClientGen

/-- The field names of a path, outermost first. -/
structure FieldPath where
  names : List String
  deriving DecidableEq, Repr, Inhabited

namespace FieldPath

def toString (path : FieldPath) : String :=
  ".".intercalate path.names

/-- Whether `path` is `front` or leads to a field below it. Whole names count, so `ab` does not
start with `a`. -/
def startsWith (path front : FieldPath) : Bool :=
  front.names.isPrefixOf path.names

end FieldPath

inductive Segment
  /-- A fixed text. -/
  | literal (text : String)
  /-- The value of a request field. The pattern after `=` says what the value may look like. -/
  | capture (path : FieldPath) (pattern : Option String)
  /-- `*`, any one segment. -/
  | single
  /-- `**`, any number of segments. -/
  | multiple
  deriving DecidableEq, Repr, Inhabited

structure Template where
  segments : List Segment
  verb : Option String
  deriving DecidableEq, Repr, Inhabited

/-- ASCII letters, digits and `_`, and no digit in front. -/
def isIdentifier : List Char → Bool
  | [] => false
  | c :: cs => (c.isAlpha || c == '_') && cs.all fun d => d.isAlphanum || d == '_'

namespace Segment

def render : Segment → String
  | literal text => text
  | capture path none => "\x7b" ++ path.toString ++ "\x7d"
  | capture path (some pattern) => "\x7b" ++ path.toString ++ "=" ++ pattern ++ "\x7d"
  | single => "*"
  | multiple => "**"

def path? : Segment → Option FieldPath
  | capture path _ => some path
  | _ => none

/-- Segments whose written form is read back as the same segment. -/
def WellFormed : Segment → Prop
  | literal text => text ≠ "" ∧ ∀ c ∈ text.toList, c ∉ ['/', ':', '{', '}', '*']
  | capture path pattern =>
    path.names ≠ [] ∧ (∀ name ∈ path.names, isIdentifier name.toList) ∧
      ∀ text ∈ pattern, text ≠ "" ∧ ∀ c ∈ text.toList, c ∉ ['{', '}']
  | single => True
  | multiple => True

end Segment

namespace Template

def render (template : Template) : String :=
  "/" ++ "/".intercalate (template.segments.map Segment.render) ++
    match template.verb with
    | none => ""
    | some verb => ":" ++ verb

/-- The field paths of the variables, in the order of the segments. -/
def capturePaths (template : Template) : List FieldPath :=
  template.segments.filterMap Segment.path?

/-- Templates whose written form is read back as the same template: at least one segment, `**` at
the end only, and no text that holds a character with a meaning of its own. -/
structure WellFormed (template : Template) : Prop where
  segments_ne_nil : template.segments ≠ []
  segments_wellFormed : ∀ segment ∈ template.segments, segment.WellFormed
  multiple_last : Segment.multiple ∉ template.segments.dropLast
  verb_wellFormed : ∀ verb ∈ template.verb, verb ≠ "" ∧
    ∀ c ∈ verb.toList, c ∉ ['/', '{', '}', ':']

end Template

end HttpClientGen
